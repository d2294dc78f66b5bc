import Mathlib.Data.List.Forall2
import Pipework.Proofs.Flags.Later
import Pipework.Proofs.Splice.Stage

/-!
# The engine on renumbered pipes

The engine goes on alike with stages that are side by side: it finds the same ones due, and ends the same ones. In
particular the scripts that stages run do not see what has been traced, since their pipelines are side by side if only
that differs.
-/

namespace Pipework

def Launch.further (d : Nat) (l : Launch) : Launch := { l with stage := l.stage.further d }

namespace Activity

/-- What is left of a stage and of the same stage in another pipeline. -/
def Beside (ts : Bytes × Bytes) (e : Nat → Nat) : Activity → Activity → Prop
  | .fresh start, .fresh start' =>
    ∀ line line', line.Beside ts e line' → (start line).Beside (Line.Beside ts e) (Wait.Moved e) (start' line')
  | .waiting why resume, .waiting why' resume' =>
    why' = why.moved e ∧ ∀ signal line line', line.Beside ts e line' →
      (resume signal line).Beside (Line.Beside ts e) (Wait.Moved e) (resume' signal line')
  | _, _ => False

/-- The stages that are left of two pipelines. -/
structure Tandem (ts : Bytes × Bytes) (e : Nat → Nat) (x x' : List Activity × Line) : Prop where
  acts : List.Forall₂ (Beside ts e) x.1 x'.1
  line : x.2.Beside ts e x'.2

/-- Going on with the stages by `f` keeps them side by side. -/
def KeepsTandem (ts : Bytes × Bytes) (e : Nat → Nat) (f : List Activity → Line → List Activity × Line) : Prop :=
  ∀ {x x' : List Activity × Line}, Tandem ts e x x' → Tandem ts e (f x.1 x.2) (f x'.1 x'.2)

/-- Going on with one stage by `f` keeps it beside the other. -/
def KeepsBeside (ts : Bytes × Bytes) (e : Nat → Nat) (f : Activity → Line → Option Activity × Line) : Prop :=
  ∀ {a a' : Activity} {line line' : Line}, a.Beside ts e a' → line.Beside ts e line' →
    Tandem ts e ((f a line).1.toList, (f a line).2) ((f a' line').1.toList, (f a' line').2)

variable {ts : Bytes × Bytes} {e : Nat → Nat}

theorem tandem_stepwise : Stepwise (KeepsBeside ts e) (KeepsTandem ts e) where
  sweep {f} hf := by
    rintro ⟨acts, line⟩ ⟨acts', line'⟩ ⟨hActs, hLine⟩
    dsimp only at hActs hLine ⊢
    induction hActs generalizing line line' with
    | nil => exact ⟨.nil, hLine⟩
    | @cons a a' acts acts' hFirst _ ih =>
      obtain ⟨hLeft, hLine⟩ := hf hFirst hLine
      obtain ⟨hRest, hLine⟩ := ih (f a line).2 (f a' line').2 hLine
      exact ⟨List.rel_append hLeft hRest, hLine⟩
  keep := fun h => h
  comp hf hg := fun h => hg (hf h)
  count {f} hf := by
    intro x x' h
    dsimp only
    rw [← h.acts.length_eq]
    exact hf x.1.length h

theorem ofRun_tandem {r r' : Run Line Unit} (h : r.Beside (Line.Beside ts e) (Wait.Moved e) r') :
    Tandem ts e ((ofRun r).1.toList, (ofRun r).2) ((ofRun r').1.toList, (ofRun r').2) := by
  cases h with
  | done h => exact ⟨.nil, h⟩
  | wait h hWhy hResume => exact ⟨.cons ⟨hWhy, hResume⟩ .nil, h⟩

theorem isDue_moved {line line' : Line} (h : line.Beside ts e line') (why : Wait) :
    isDue line' (why.moved e) = isDue line why := by
  cases why with
  | stop => exact h.canceled
  | never => exact h.canceled
  | input i => simp only [Wait.moved, isDue, h.pipe trivial]
  | room i => simp only [Wait.moved, isDue, h.broken, h.canceled]
  | offer data endless => exact h.stopped

theorem proceed_keepsBeside : KeepsBeside ts e proceed := by
  intro a a' line line' h hLine
  cases a with
  | fresh start =>
    cases a' with
    | fresh start' => exact ofRun_tandem (h line line' hLine)
    | waiting why' resume' => cases h
  | waiting why resume =>
    cases a' with
    | fresh start' => cases h
    | waiting why' resume' =>
      obtain ⟨rfl, hResume⟩ := h
      unfold proceed
      dsimp only
      rw [isDue_moved hLine, hLine.canceled]
      by_cases hDue : isDue line why = true
      · rw [if_pos hDue, if_pos hDue]
        exact ofRun_tandem (hResume _ line line' hLine)
      · rw [if_neg hDue, if_neg hDue]
        exact ⟨.cons ⟨rfl, hResume⟩ .nil, hLine⟩

theorem lapse_tandem {r r' : Run Line Unit} (h : r.Beside (Line.Beside ts e) (Wait.Moved e) r') :
    Tandem ts e ((lapse r).1.toList, (lapse r).2) ((lapse r').1.toList, (lapse r').2) := by
  induction h with
  | done h => exact ⟨.nil, h⟩
  | @wait why why' state state' resume resume' h hWhy hResume ih =>
    obtain rfl : why' = why.moved e := hWhy
    cases why with
    | stop => exact ih .ready state state' h
    | _ => exact ofRun_tandem (.wait h rfl hResume)

theorem tick_keepsBeside : KeepsBeside ts e tick := by
  intro a a' line line' h hLine
  have hKept : Tandem ts e ([a], line) ([a'], line') := ⟨.cons h .nil, hLine⟩
  cases a with
  | fresh start =>
    cases a' with
    | fresh start' => exact hKept
    | waiting why' resume' => cases h
  | waiting why resume =>
    cases a' with
    | fresh start' => cases h
    | waiting why' resume' =>
      obtain ⟨rfl, hResume⟩ := h
      cases why with
      | stop => exact lapse_tandem (hResume .ready line line' hLine)
      | _ => exact hKept

theorem halt_keepsBeside : KeepsBeside ts e halt := by
  intro a a' line line' h hLine
  cases a with
  | fresh start =>
    cases a' with
    | fresh start' => exact ⟨.nil, (h line line' hLine).finish.2⟩
    | waiting why' resume' => cases h
  | waiting why resume =>
    cases a' with
    | fresh start' => cases h
    | waiting why' resume' => exact ⟨.nil, (h.2 (.stop 0) line line' hLine).finish.2⟩

theorem settle_keepsTandem : KeepsTandem ts e settle := tandem_stepwise.settle proceed_keepsBeside

theorem outlast_keepsTandem : KeepsTandem ts e outlast := tandem_stepwise.outlast proceed_keepsBeside tick_keepsBeside

theorem stopAll_beside {x x' : List Activity × Line} (h : Tandem ts e x x') :
    (stopAll x.1 x.2).Beside ts e (stopAll x'.1 x'.2) := by
  rw [stopAll_eq_sweep, stopAll_eq_sweep]
  exact (tandem_stepwise.sweep halt_keepsBeside h).line

end Activity

def Launched.Beside (ts : Bytes × Bytes) (e : Nat → Nat) : Launched × Line → Launched × Line → Prop
  | (.aborted fault acts, line), (.aborted fault' acts', line') =>
    fault' = fault ∧ Activity.Tandem ts e (acts, line) (acts', line')
  | (.complete acts last, line), (.complete acts' last', line') =>
    Activity.Beside ts e (.fresh last) (.fresh last') ∧ Activity.Tandem ts e (acts, line) (acts', line')
  | _, _ => False

namespace Invoker

open Activity

variable {v : Invoker} {nested : Nested} {output : Output} {ts : Bytes × Bytes} {e : Nat → Nat}

/-- Launching a command does not depend on what has been traced or on the pipes, and its place only shows in the
stage. -/
theorem launch_renumbered (output : Output) {index d : Nat} (hFirst : index + d = 0 ↔ index = 0) (isLast : Bool)
    (c : Command) (line : Line) (t : Bytes) (pipes : List Feed) (broken : List Nat) :
    v.launch output (index + d) isLast c
        { line with world := line.world.withTrace t, pipes := pipes, broken := broken } =
      let x := v.launch output index isLast c line
      (x.1.map (Launch.further d),
        { x.2 with world := x.2.world.withTrace t, pipes := pipes, broken := broken }) := by
  have hDirectory : v.directory (line.world.withTrace t) = v.directory line.world := rfl
  have hBuiltin (name : String) : (line.world.withTrace t).builtin? name = line.world.builtin? name := rfl
  unfold launch
  dsimp only
  rw [hDirectory]
  simp only [hBuiltin, hFirst, (World.unseen_withTrace t).redirectAll]
  cases (Wiring.initial (if index = 0 then Source.host else .pipe)).redirectAll
      (if (line.world.builtin? (c.args.headD "")).isSome then Storage.shell else .host) (v.directory line.world)
      c.redirections line.world with
  | mk reply world =>
    cases reply with
    | error fault => rfl
    | ok w =>
      cases line.world.builtin? (c.args.headD "") with
      | some b => rfl
      | none =>
        have hStart : Host.start v.programs (world.withTrace t).host line.canceled (v.directory line.world) c.args
            (v.processEnv (world.withTrace t) c) =
          Host.start v.programs world.host line.canceled (v.directory line.world) c.args (v.processEnv world c) := rfl
        dsimp only
        rw [hStart]
        cases Host.start v.programs world.host line.canceled (v.directory line.world) c.args (v.processEnv world c) with
        | error fault =>
          dsimp only
          rw [(World.unseen_withTrace t).abandon]
          rfl
        | ok task =>
          obtain ⟨source, feed, path, out, err, handles, readings⟩ := w
          cases source <;> rfl

theorem launch_alike {K : Nat → Prop} (output : Output) {index d : Nat} (hFirst : index + d = 0 ↔ index = 0)
    (isLast : Bool) (c : Command) {line line' : Line} (h : line.Alike ts e K line') :
    (v.launch output (index + d) isLast c line').1 = (v.launch output index isLast c line).1.map (Launch.further d) ∧
      (v.launch output index isLast c line).2.Alike ts e K (v.launch output (index + d) isLast c line').2 := by
  obtain @⟨-, pipes, broken, ⟨t, hTrace, rfl⟩, hPipes, hBroken⟩ := h
  have hKept : (v.launch output index isLast c line).2.world.trace = line.world.trace :=
    World.Aloof.launch World.trace_serve (fun _ _ => rfl) v output index isLast c line
  have hRetraced : (v.launch output index isLast c line).2.world.Retraced ts
      ((v.launch output index isLast c line).2.world.withTrace (ts.2 ++ t)) := ⟨t, hKept.trans hTrace, rfl⟩
  rw [v.launch_renumbered output hFirst isLast c line]
  refine ⟨rfl, .intro hRetraced (fun i hi => ?_) fun i => ?_⟩
  · rw [v.line_launch output index isLast c line]
    exact hPipes i hi
  · rw [v.line_launch output index isLast c line]
    exact hBroken i

theorem resumeOthers_keepsTandem (signal : Signal) (idle : Bool) : KeepsTandem ts e (resumeOthers signal idle) := by
  intro x x' h
  cases signal with
  | ready =>
    cases idle with
    | true => exact outlast_keepsTandem h
    | false => exact h
  | stop taken =>
    have hStop : Tandem ts e (x.1, x.2.stop) (x'.1, x'.2.stop) := ⟨h.acts, h.line.stop⟩
    exact settle_keepsTandem hStop

theorem await_beside {x x' : List Activity × Line} (h : Tandem ts e x x') :
    (await x.1 x.2).Beside (Line.Beside ts e) Wait.Outward (await x'.1 x'.2) := by
  have hEmpty {acts acts' : List Activity} (hActs : List.Forall₂ (Activity.Beside ts e) acts acts') :
      acts'.isEmpty = acts.isEmpty := by cases hActs <;> rfl
  obtain ⟨hActs, hLine⟩ := settle_keepsTandem h
  unfold await
  dsimp only
  rw [hEmpty hActs]
  refine .ite (fun _ => .done hLine) fun _ => ?_
  refine .wait hLine ⟨rfl, rfl⟩ fun signal line line' hLine => ?_
  have hLeft : Tandem ts e ((settle x.1 x.2).1, line) ((settle x'.1 x'.2).1, line') := ⟨hActs, hLine⟩
  obtain ⟨hActs', hLine'⟩ := resumeOthers_keepsTandem signal true hLeft
  dsimp only at hActs' hLine' ⊢
  rw [hEmpty hActs']
  refine .ite (fun _ => .done hLine') fun _ => ?_
  refine .wait hLine' ⟨rfl, rfl⟩ fun signal line line' hLine => ?_
  have hStop : Tandem ts e (_, line.stop) (_, line'.stop) := ⟨hActs', hLine.stop⟩
  exact .done (stopAll_beside hStop)

theorem drive_beside {r r' : Run Line Unit} (h : r.Beside (Line.Beside ts e) (Wait.Moved e) r')
    {acts acts' : List Activity} (hActs : List.Forall₂ (Activity.Beside ts e) acts acts') :
    (drive acts r).Beside (Line.Beside ts e) Wait.Outward (drive acts' r') := by
  induction h generalizing acts acts' with
  | @done _ line line' hLine =>
    have hStart : Tandem ts e (acts, line) (acts', line') := ⟨hActs, hLine⟩
    exact await_beside hStart
  | @wait why why' line line' resume resume' hLine hWhy hResume ih =>
    obtain rfl : why' = why.moved e := hWhy
    have hNext (idle : Bool) (signal : Signal) (line line' : Line) (hLine : line.Beside ts e line') :
        (drive (resumeOthers signal idle acts line).1 (resume signal (resumeOthers signal idle acts line).2)).Beside
          (Line.Beside ts e) Wait.Outward
          (drive (resumeOthers signal idle acts' line').1
            (resume' signal (resumeOthers signal idle acts' line').2)) := by
      have hStart : Tandem ts e (acts, line) (acts', line') := ⟨hActs, hLine⟩
      obtain ⟨hActs', hLine'⟩ := resumeOthers_keepsTandem signal idle hStart
      exact ih signal _ _ hLine' hActs'
    cases why with
    | input i => exact .wait hLine ⟨rfl, rfl⟩ (hNext true)
    | _ => exact .wait hLine ⟨rfl, rfl⟩ (hNext false)

end Invoker

section Scripts

open Activity

variable {v : Invoker} {nested : Nested} {output : Output} {ts : Bytes × Bytes}

theorem Launch.run_beside {e : Nat → Nat} (he : e.Injective) (hNested : nested.Untraced) {start : Launch} {d : Nat}
    (hShift : Shifts e d start.stage.index) {line line' : Line} (h : line.Beside ts e line') :
    (start.run nested line).Beside (Line.Beside ts e) (Wait.Moved e) ((start.further d).run nested line') :=
  Stage.run_beside he hShift hNested start.task start.desk h

namespace Invoker

theorem launchAll_beside (hNested : nested.Untraced) (commands : List Command) {index : Nat}
    {running running' : List Activity} (hActs : List.Forall₂ (Activity.Beside ts id) running running')
    {line line' : Line} (h : line.Beside ts id line') :
    Launched.Beside ts id (v.launchAll nested output index running commands line)
      (v.launchAll nested output index running' commands line') := by
  induction commands generalizing index running running' line line' with
  | nil => exact ⟨fun line line' h => .done h, hActs, h⟩
  | cons c rest ih =>
    obtain ⟨hStart, hLine⟩ := v.launch_alike (d := 0) output Iff.rfl rest.isEmpty c h
    rw [launchAll_cons, launchAll_cons]
    cases hLaunch : v.launch output index rest.isEmpty c line with
    | mk reply line₁ =>
      cases hLaunch' : v.launch output index rest.isEmpty c line' with
      | mk reply' line₂ =>
        rw [Nat.add_zero, hLaunch, hLaunch'] at hStart hLine
        dsimp only at hStart hLine
        cases reply with
        | error fault =>
          subst hStart
          exact ⟨rfl, hActs, hLine⟩
        | ok start =>
          subst hStart
          have hRun {line line' : Line} (h : line.Beside ts id line') :=
            start.run_beside Function.injective_id hNested (.id _) h
          dsimp only [Except.map]
          cases hRest : rest.isEmpty with
          | true => exact ⟨fun line line' h => hRun h, hActs, hLine⟩
          | false =>
            simp only [Bool.false_eq_true, if_false]
            have hOrder : (start.further 0).inOrder = start.inOrder := rfl
            rw [hOrder]
            by_cases hIn : start.inOrder = true
            · rw [if_pos hIn, if_pos hIn]
              exact ih hActs (hRun hLine).complete.2
            · rw [if_neg hIn, if_neg hIn]
              have hFresh : Activity.Beside ts id (.fresh (start.run nested)) (.fresh ((start.further 0).run nested)) :=
                fun line line' h => hRun h
              exact ih (List.rel_append hActs (.cons hFresh .nil)) hLine

/-- Goes on with a pipeline whose stages have been launched. -/
def conclude : Launched × Line → Run Line (Option Fault)
  | (.aborted fault acts, line) =>
    let (acts, line) := Activity.settle acts { line with canceled := true }
    .done (some fault) (Activity.stopAll acts line)
  | (.complete acts last, line) =>
    let (acts, line) := Activity.settle acts line
    (drive acts (last line)).bind fun _ line => .done (line.board.verdict.map Failure.toFault) line

theorem runStages_eq (p : Pipeline) (line : Line) :
    v.runStages nested output p line = conclude (v.launchAll nested output 0 [] p.commands line) := by
  unfold runStages conclude
  split <;> simp_all

theorem conclude_beside {e : Nat → Nat} {x x' : Launched × Line} (h : Launched.Beside ts e x x') :
    (conclude x).Beside (Line.Beside ts e) Wait.Outward (conclude x') := by
  obtain ⟨launched, line⟩ := x
  obtain ⟨launched', line'⟩ := x'
  cases launched with
  | aborted fault acts =>
    cases launched' with
    | complete acts' last' => cases h
    | aborted fault' acts' =>
      obtain ⟨rfl, hTandem⟩ := h
      have hCanceled : Tandem ts e (acts, { line with canceled := true }) (acts', { line' with canceled := true }) :=
        ⟨hTandem.acts, hTandem.line.cancel⟩
      exact .done (stopAll_beside (settle_keepsTandem hCanceled))
  | complete acts last =>
    cases launched' with
    | aborted fault' acts' => cases h
    | complete acts' last' =>
      obtain ⟨hLast, hTandem⟩ := h
      obtain ⟨hActs, hLine⟩ := settle_keepsTandem hTandem
      refine (drive_beside (hLast _ _ hLine) hActs).bind fun _ line line' hLine => ?_
      rw [hLine.board]
      exact .done hLine

def Phase.withTrace (phase : Phase) (t : Bytes) : Phase := { phase with world := phase.world.withTrace t }

/-- The same phase of a script, but for what had been traced at some time: `ts.1` in the one and `ts.2` in the other. -/
def Phase.Retraced (ts : Bytes × Bytes) (phase phase' : Phase) : Prop :=
  ∃ t, phase.world.trace = ts.1 ++ t ∧ phase' = phase.withTrace (ts.2 ++ t)

theorem Phase.Retraced.symm {phase phase' : Phase} (h : phase.Retraced ts phase') : phase'.Retraced ts.swap phase := by
  obtain ⟨t, hTrace, rfl⟩ := h
  refine ⟨t, rfl, ?_⟩
  rw [Prod.snd_swap, ← hTrace]
  rfl

theorem Phase.Retraced.unique {phase phase' phase'' : Phase} (h : phase.Retraced ts phase')
    (h' : phase.Retraced ts phase'') : phase'' = phase' := by
  obtain ⟨t, hTrace, rfl⟩ := h
  obtain ⟨t', hTrace', rfl⟩ := h'
  rw [List.append_cancel_left (hTrace.symm.trans hTrace')]

theorem Phase.retraced_self {t : Bytes} {phase phase' : Phase} : phase.Retraced (t, t) phase' ↔
    phase' = phase ∧ t <+: phase.world.trace := by
  constructor
  · rintro ⟨s, hTrace, rfl⟩
    refine ⟨?_, s, hTrace.symm⟩
    dsimp only at hTrace ⊢
    rw [← hTrace]
    rfl
  · rintro ⟨rfl, s, hTrace⟩
    refine ⟨s, hTrace.symm, ?_⟩
    dsimp only
    rw [hTrace]
    rfl

theorem traced_retraced (p : Pipeline) {w w' : World} (h : w.Retraced ts w') :
    (v.traced p w).Retraced ts (v.traced p w') := by
  obtain ⟨t, hTrace, rfl⟩ := h
  have hFlag : v.flag (w.withTrace (ts.2 ++ t)) debugVar = v.flag w debugVar := rfl
  unfold traced
  rw [hFlag]
  split
  · let record := markLines (utf8 "+ ") (utf8 (traceRecord p (v.directory w)))
    refine ⟨t ++ record, ?_, ?_⟩
    · rw [← List.append_assoc, ← hTrace]
    · rw [← List.append_assoc]
      rfl
  · exact ⟨t, hTrace, rfl⟩

theorem Phase.Retraced.openLine {phase phase' : Phase} (h : phase.Retraced ts phase') (p : Pipeline) :
    (v.openLine p phase).Beside ts id (v.openLine p phase') := by
  obtain ⟨t, hTrace, rfl⟩ := h
  exact .intro ⟨t, hTrace, rfl⟩ (fun _ _ => rfl) fun _ => rfl

def Phase.traced (v : Invoker) (p : Pipeline) (phase : Phase) : Phase :=
  { phase with world := v.traced p phase.world }

theorem Phase.Retraced.traced {phase phase' : Phase} (h : phase.Retraced ts phase') (p : Pipeline) :
    (phase.traced v p).Retraced ts (phase'.traced v p) := by
  obtain ⟨t, hTrace, rfl⟩ := h
  have hWorld : phase.world.Retraced ts (phase.world.withTrace (ts.2 ++ t)) := ⟨t, hTrace, rfl⟩
  obtain ⟨t', hTrace', hTraced⟩ := v.traced_retraced p hWorld
  exact ⟨t', hTrace', congrArg (fun w => { phase with world := w }) hTraced⟩

theorem Phase.Retraced.closeLine {e : Nat → Nat} {K : Nat → Prop} {phase phase' : Phase} {line line' : Line}
    (hPhase : phase.Retraced ts phase') (h : line.Alike ts e K line') :
    (closeLine phase line).Retraced ts (closeLine phase' line') := by
  obtain ⟨_, -, rfl⟩ := hPhase
  obtain ⟨⟨t, hTrace, rfl⟩⟩ := h
  exact ⟨t, hTrace, rfl⟩

theorem runPipeline_of_runStages {e : Nat → Nat} {p p' : Pipeline} {phase phase' : Phase}
    (hPhase : (phase.traced v p).Retraced ts (phase'.traced v p'))
    (h : (v.runStages nested output p (v.openLine p (phase.traced v p))).Beside (Line.Beside ts e) Wait.Outward
      (v.runStages nested output p' (v.openLine p' (phase'.traced v p')))) :
    (v.runPipeline nested output p phase).Beside (Phase.Retraced ts) Wait.Outward
      (v.runPipeline nested output p' phase') := by
  refine h.within (fun _ _ h => hPhase.closeLine h) ?_ fun fault line line' h => ?_
  · rintro part - signal line - ⟨t, hTrace, rfl⟩ ⟨-, hPipes, hBroken⟩
    exact .intro ⟨t, hTrace, rfl⟩ hPipes hBroken
  · dsimp only
    rw [h.captured]
    exact .done (hPhase.closeLine h)

theorem runPipeline_beside (hNested : nested.Untraced) (p : Pipeline) {phase phase' : Phase}
    (h : phase.Retraced ts phase') :
    (v.runPipeline nested output p phase).Beside (Phase.Retraced ts) Wait.Outward
      (v.runPipeline nested output p phase') := by
  refine runPipeline_of_runStages (e := id) (h.traced p) ?_
  rw [runStages_eq, runStages_eq]
  exact conclude_beside (launchAll_beside hNested p.commands .nil ((h.traced p).openLine p))

theorem runAlternatives_beside (hNested : nested.Untraced) (alternatives : List Pipeline) {phase phase' : Phase}
    (h : phase.Retraced ts phase') :
    (v.runAlternatives nested output alternatives phase).Beside (Phase.Retraced ts) Wait.Outward
      (v.runAlternatives nested output alternatives phase') := by
  induction alternatives generalizing phase phase' with
  | nil => exact .done h
  | cons p rest ih =>
    refine (runPipeline_beside hNested p h).bind fun (fault, text) phase phase' h => ?_
    cases fault with
    | none => exact .done h
    | some fault => exact .ite (fun _ => .done h) fun _ => .ite (fun _ => .done h) fun _ => ih h

theorem runStatements_beside (hNested : nested.Untraced) (m : Mode) (statements : List Statement) (text : Bytes)
    {phase phase' : Phase} (h : phase.Retraced ts phase') :
    (v.runStatements nested m text statements phase).Beside (Phase.Retraced ts) Wait.Outward
      (v.runStatements nested m text statements phase') := by
  induction statements generalizing text phase phase' with
  | nil => exact .done h
  | cons s rest ih =>
    refine (runAlternatives_beside hNested s.alternatives h).bind fun result phase phase' h => ?_
    cases result with
    | error fault => exact .done h
    | ok text => exact ih text h

end Invoker

theorem Context.enter_withTrace (context : Context) (w : World) (t : Bytes) :
    context.enter (w.withTrace t) = ((context.enter w).1, (context.enter w).2.withTrace t) := by
  unfold Context.enter
  split <;> rfl

theorem executeWith_beside (hNested : nested.Untraced) (programs : Host.Programs) (context : Context) (m : Mode)
    (script : Script) {w w' : World} (h : w.Retraced ts w') :
    (executeWith nested programs context m script w).Beside (World.Retraced ts) Wait.Outward
      (executeWith nested programs context m script w') := by
  obtain ⟨t, hTrace, rfl⟩ := h
  have hEnter : (context.enter w).2.trace = ts.1 ++ t := by
    rw [← hTrace]
    unfold Context.enter
    split <;> rfl
  unfold executeWith
  rw [Context.enter_withTrace]
  dsimp only
  refine Run.Beside.within (R := Invoker.Phase.Retraced ts)
    (Run.Beside.bind (Invoker.runStatements_beside hNested m _ [] ⟨t, hEnter, rfl⟩) ?_) ?_ ?_ ?_
  · rintro result phase - ⟨t, hTrace, rfl⟩
    exact .done ⟨t, hTrace, rfl⟩
  · rintro phase - ⟨t, hTrace, rfl⟩
    exact ⟨t, hTrace, rfl⟩
  · rintro w - signal phase - ⟨t, hTrace, rfl⟩ ⟨-, -, rfl⟩
    exact ⟨t, hTrace, rfl⟩
  · rintro result phase - ⟨t, hTrace, rfl⟩
    exact .done ⟨t, hTrace, rfl⟩

theorem nestedRun_untraced (programs : Host.Programs) (depth : Nat) : (nestedRun programs depth).Untraced := by
  induction depth with
  | zero => exact fun _ _ _ _ _ _ _ h => .done h
  | succ depth ih =>
    intro ts context file line text w w' h
    unfold nestedRun
    cases Script.parse ⟨context.symbols, file, line⟩ text with
    | error mistake => exact .done h
    | ok script => exact executeWith_beside ih programs context .capture script h

end Scripts

end Pipework
