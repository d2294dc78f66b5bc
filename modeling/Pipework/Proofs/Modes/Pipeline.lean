import Mathlib.Data.List.Forall2
import Pipework.Proofs.Modes.Stage
import Pipework.Proofs.Stage.Sweep

/-!
# Pipelines do not see where their output goes

The engine goes on with the stages of a pipeline alike, whether the output is captured or goes elsewhere: it
finds the same stages due, ends the same ones, and the pipeline has the same fault. The scripts that stages
run are pipelines that capture, so they do not see what the host has received.
-/

namespace Pipework

namespace Output

/-- A pipeline with a consumer is not stopped, and nobody waits for the end of one that is stuck. -/
def Hears (output : Output) (why : Wait) (signal : Signal) : Prop :=
  output = .consumer → why ≠ .never ∧ signal = .ready

end Output

theorem Line.view_look (output : Output) (taps : Prop) (o : Bytes) (l : Line) :
    (Line.view output taps).look o l = l.look output o := rfl

namespace Activity

variable (output : Output)

/-- What is left of the same stage, other than the last, with the output captured and to `output`. -/
def Mirrors : Activity → Activity → Prop
  | .fresh start, .fresh start' =>
    ∀ line o, (output = .consumer → line.stopped = false) →
      (start line).Mirrors (Line.view output False) (fun _ _ => True) o (output.offered line.captured)
        (start' (line.look output o))
  | .waiting why resume, .waiting why' resume' =>
    why' = why ∧ ∀ signal line o, (output = .consumer → line.stopped = false) →
      (resume signal line).Mirrors (Line.view output False) (fun _ _ => True) o (output.offered line.captured)
        (resume' signal (line.look output o))
  | _, _ => False

/-- The stages that are left of a pipeline with the output captured and to `output`. -/
structure Alike (o sent : Bytes) (x x' : List Activity × Line) : Prop where
  acts : List.Forall₂ (Mirrors output) x.1 x'.1
  line : x'.2 = x.2.look output o
  fits : output = .consumer → x.2.stopped = false
  sent : output.offered x.2.captured = sent

/-- Going on with stages by `f` does not depend on where the output goes. -/
def Lockstep (f : List Activity → Line → List Activity × Line) : Prop :=
  ∀ {o sent : Bytes} {x x' : List Activity × Line}, Alike output o sent x x' →
    Alike output o sent (f x.1 x.2) (f x'.1 x'.2)

/-- Going on with one stage by `f` does not depend on where the output goes. -/
def KeepsStep (f : Activity → Line → Option Activity × Line) : Prop :=
  ∀ {a a' : Activity} {line : Line} {o : Bytes}, a.Mirrors output a' → (output = .consumer → line.stopped = false) →
    Alike output o (output.offered line.captured) ((f a line).1.toList, (f a line).2)
      ((f a' (line.look output o)).1.toList, (f a' (line.look output o)).2)

variable {output} {o sent : Bytes}

theorem lockstep_stepwise : Stepwise (KeepsStep output) (Lockstep output) where
  sweep {f} hf := by
    rintro o sent ⟨acts, line⟩ ⟨acts', line'⟩ ⟨hActs, rfl, hFits, rfl⟩
    dsimp only at hActs hFits ⊢
    induction hActs generalizing line with
    | nil => exact ⟨.nil, rfl, hFits, rfl⟩
    | @cons a a' acts acts' hFirst _ ih =>
      obtain ⟨hLeft, hLine, hFits', hSent⟩ := hf (o := o) hFirst hFits
      dsimp only at hLeft hLine hFits' hSent
      obtain ⟨hRest, hLine', hFits'', hSent'⟩ := ih (f a line).2 hFits'
      unfold sweep
      rw [hLine]
      exact ⟨List.rel_append hLeft hRest, hLine', hFits'', hSent'.trans hSent⟩
  keep := fun h => h
  comp hf hg := fun h => hg (hf h)
  count {f} hf := by
    intro o sent x x' h
    dsimp only
    rw [← h.acts.length_eq]
    exact hf x.1.length h

theorem ofRun_alike {r r' : Run Line Unit} (h : r.Mirrors (Line.view output False) (fun _ _ => True) o sent r') :
    Alike output o sent ((ofRun r).1.toList, (ofRun r).2) ((ofRun r').1.toList, (ofRun r').2) := by
  cases h with
  | done hSent hFits => exact ⟨.nil, rfl, hFits, hSent⟩
  | wait hSent hFits hOffer hWhy hResume =>
    rcases hWhy with rfl | ⟨hTaps, -⟩
    · refine ⟨.cons ⟨rfl, fun signal line o => hResume signal trivial line o⟩ .nil, rfl, hFits, hSent⟩
    · exact hTaps.elim
  | offer hTaps _ => exact hTaps.elim

@[simp] theorem isDue_look (line : Line) (why : Wait) : isDue (line.look output o) why = isDue line why := by
  cases why <;> rfl

theorem proceed_keepsStep : KeepsStep output proceed := by
  intro a a' line o h hFits
  cases a with
  | fresh start =>
    cases a' with
    | fresh start' => exact ofRun_alike (h line o hFits)
    | waiting why' resume' => cases h
  | waiting why resume =>
    cases a' with
    | fresh start' => cases h
    | waiting why' resume' =>
      obtain ⟨rfl, hResume⟩ := h
      unfold proceed
      dsimp only
      rw [isDue_look]
      by_cases hDue : isDue line why' = true
      · rw [if_pos hDue, if_pos hDue]
        exact ofRun_alike (hResume _ line o hFits)
      · rw [if_neg hDue, if_neg hDue]
        exact ⟨.cons ⟨rfl, hResume⟩ .nil, rfl, hFits, rfl⟩

theorem lapse_alike {r r' : Run Line Unit} (h : r.Mirrors (Line.view output False) (fun _ _ => True) o sent r') :
    Alike output o sent ((lapse r).1.toList, (lapse r).2) ((lapse r').1.toList, (lapse r').2) := by
  induction h with
  | done hSent hFits => exact ⟨.nil, rfl, hFits, hSent⟩
  | @wait o sent why why' state resume resume' hSent hFits hOffer hWhy hResume ih =>
    rcases hWhy with rfl | ⟨hTaps, -⟩
    · cases why' with
      | stop =>
        subst hSent
        exact ih .ready trivial state o hFits
      | _ => exact ofRun_alike (.wait hSent hFits hOffer (.inl rfl) hResume)
    · exact hTaps.elim
  | offer hTaps _ _ => exact hTaps.elim

theorem tick_keepsStep : KeepsStep output tick := by
  intro a a' line o h hFits
  have hKept : Alike output o (output.offered line.captured) ([a], line) ([a'], line.look output o) :=
    ⟨.cons h .nil, rfl, hFits, rfl⟩
  cases a with
  | fresh start =>
    cases a' with
    | fresh start' => exact hKept
    | waiting why' resume' => cases h
  | waiting why resume =>
    cases a' with
    | fresh start' => cases h
    | waiting why' resume' =>
      obtain ⟨rfl, hResume⟩ := h
      cases why' with
      | stop => exact lapse_alike (hResume .ready line o hFits)
      | _ => exact hKept

theorem halt_keepsStep : KeepsStep output halt := by
  intro a a' line o h hFits
  have hEnd {r r' : Run Line Unit}
      (h : r.Mirrors (Line.view output False) (fun _ _ => True) o (output.offered line.captured) r') :
      Alike output o (output.offered line.captured) ([], r.finish.2) ([], r'.finish.2) := by
    obtain ⟨hFinish, hFits', hSent⟩ := h.finish (fun _ _ => trivial) id
    exact ⟨.nil, congrArg Prod.snd hFinish, hFits', hSent⟩
  cases a with
  | fresh start =>
    cases a' with
    | fresh start' => exact hEnd (h line o hFits)
    | waiting why' resume' => cases h
  | waiting why resume =>
    cases a' with
    | fresh start' => cases h
    | waiting why' resume' => exact hEnd (h.2 (.stop 0) line o hFits)

theorem settle_lockstep : Lockstep output settle := lockstep_stepwise.settle proceed_keepsStep

theorem outlast_lockstep : Lockstep output outlast := lockstep_stepwise.outlast proceed_keepsStep tick_keepsStep

theorem stopAll_look {x x' : List Activity × Line} (h : Alike output o sent x x') :
    stopAll x'.1 x'.2 = (stopAll x.1 x.2).look output o ∧ (output = .consumer → (stopAll x.1 x.2).stopped = false) ∧
      output.offered (stopAll x.1 x.2).captured = sent := by
  rw [stopAll_eq_sweep, stopAll_eq_sweep]
  obtain ⟨-, hLine, hFits, hSent⟩ := lockstep_stepwise.sweep halt_keepsStep h
  exact ⟨hLine, hFits, hSent⟩

end Activity

section Pipelines

open Activity

variable {v : Invoker} {output : Output} {nested : Nested} {o sent : Bytes}

variable (output) in
/-- The last stage of a pipeline with the output captured and to `output`. -/
def LastMirrors (last last' : Line → Run Line Unit) : Prop :=
  ∀ line o, (output = .consumer → line.stopped = false) →
    (last line).Mirrors (Line.view output (output = .consumer)) output.Hears o (output.offered line.captured)
      (last' (line.look output o))

variable (output) in
/-- The stages that were launched with the output captured and to `output`. -/
def Launched.Alike (o sent : Bytes) : Launched × Line → Launched × Line → Prop
  | (.aborted fault acts, line), (.aborted fault' acts', line') =>
    fault' = fault ∧ Activity.Alike output o sent (acts, line) (acts', line')
  | (.complete acts last, line), (.complete acts' last', line') =>
    LastMirrors output last last' ∧ Activity.Alike output o sent (acts, line) (acts', line')
  | _, _ => False

theorem Launch.toward_mirrors (hNested : nested.Blind) {start : Launch} {taps : Prop} {hears : Wait → Signal → Prop}
    (hSuits : start.stage.Suits output taps hears) {line : Line} (hFits : output = .consumer → line.stopped = false) :
    (start.run nested line).Mirrors (Line.view output taps) hears o (output.offered line.captured)
      ((start.toward output).run nested (line.look output o)) :=
  Stage.run_mirrors hSuits hFits hNested start.task start.desk

namespace Invoker

theorem launch_suits {index : Nat} {isLast : Bool} {c : Command} {line line' : Line} {start : Launch}
    (h : v.launch .capture index isLast c line = (.ok start, line')) :
    (isLast = false → start.stage.Suits output False fun _ _ => True) ∧
      start.stage.Suits output (output = .consumer) output.Hears := by
  obtain ⟨-, hLast, hOutput, -, -⟩ := v.stage_launch .capture index isLast c line (by rw [h])
  constructor
  · intro hNot
    rw [hNot] at hLast
    exact ⟨hOutput, by simp [hLast], by simp [hLast]⟩
  · exact ⟨hOutput, fun _ hConsumer => hConsumer, fun _ hConsumer _ _ hHears => (hHears hConsumer).2⟩

theorem launchAll_alike (hNested : nested.Blind) (commands : List Command) {index : Nat}
    {running running' : List Activity} (hActs : List.Forall₂ (Activity.Mirrors output) running running') {line : Line}
    (hFits : output = .consumer → line.stopped = false) :
    Launched.Alike output o (output.offered line.captured) (v.launchAll nested .capture index running commands line)
      (v.launchAll nested output index running' commands (line.look output o)) := by
  induction commands generalizing index running running' line with
  | nil => exact ⟨fun line o hFits => .of_done rfl hFits rfl, hActs, rfl, hFits, rfl⟩
  | cons c rest ih =>
    have hLook := v.launch_look output index rest.isEmpty c line o
    have hLine := v.line_launch .capture index rest.isEmpty c line
    cases hLaunch : v.launch .capture index rest.isEmpty c line with
    | mk reply line' =>
      rw [hLaunch] at hLook hLine
      dsimp only at hLook hLine
      have hStopped : line'.stopped = line.stopped := by rw [hLine]
      have hCaptured : line'.captured = line.captured := by rw [hLine]
      have hFits' : output = .consumer → line'.stopped = false := by
        rw [hStopped]
        exact hFits
      have hSent : output.offered line'.captured = output.offered line.captured := by rw [hCaptured]
      rw [launchAll_cons, launchAll_cons, hLaunch, hLook]
      cases reply with
      | error fault => exact ⟨rfl, hActs, rfl, hFits', hSent⟩
      | ok start =>
        obtain ⟨hOther, hLast⟩ : (rest.isEmpty = false → start.stage.Suits output False fun _ _ => True) ∧
            start.stage.Suits output (output = .consumer) output.Hears := launch_suits hLaunch
        have hOrder : (start.toward output).inOrder = start.inOrder := rfl
        dsimp only [Except.map]
        rw [hOrder]
        cases hRest : rest.isEmpty with
        | true => exact ⟨fun line o hFits => start.toward_mirrors hNested hLast hFits, hActs, rfl, hFits', hSent⟩
        | false =>
          have hSuits := hOther hRest
          simp only [Bool.false_eq_true, if_false]
          by_cases hIn : start.inOrder = true
          · rw [if_pos hIn, if_pos hIn]
            obtain ⟨hEnd, hEndFits, hEndSent⟩ :=
              (start.toward_mirrors (o := o) hNested hSuits hFits').complete (fun _ _ => trivial) id
            rw [hEnd, ← hSent, ← show output.offered _ = output.offered line'.captured from hEndSent]
            exact ih hActs hEndFits
          · rw [if_neg hIn, if_neg hIn, ← hSent]
            have hFresh : Activity.Mirrors output (.fresh (start.run nested))
                (.fresh ((start.toward output).run nested)) :=
              fun line o hFits => start.toward_mirrors hNested hSuits hFits
            exact ih (List.rel_append hActs (.cons hFresh .nil)) hFits'

theorem resumeOthers_lockstep {signal : Signal} (hSignal : output = .consumer → signal = .ready) (idle : Bool) :
    Lockstep output (resumeOthers signal idle) := by
  intro o sent x x' h
  cases signal with
  | ready =>
    cases idle with
    | true => exact outlast_lockstep h
    | false => exact h
  | stop taken =>
    have hStop : Activity.Alike output o sent (x.1, x.2.stop) (x'.1, x'.2.stop) := by
      refine ⟨h.acts, ?_, fun hConsumer => ?_, h.sent⟩
      · rw [h.line]
        rfl
      · cases hSignal hConsumer
    exact settle_lockstep hStop

theorem await_mirrors {x x' : List Activity × Line} (h : Activity.Alike output o sent x x') :
    (await x.1 x.2).Mirrors (Line.view output (output = .consumer)) output.Hears o sent (await x'.1 x'.2) := by
  have hEmpty {acts acts' : List Activity} (hActs : List.Forall₂ (Activity.Mirrors output) acts acts') :
      acts'.isEmpty = acts.isEmpty := by cases hActs <;> rfl
  obtain ⟨hActs, hLine, hFits, hSent⟩ := settle_lockstep h
  unfold await
  dsimp only
  rw [hEmpty hActs]
  by_cases hDone : (settle x.1 x.2).1.isEmpty = true
  · rw [if_pos hDone, if_pos hDone]
    exact .of_done hSent hFits hLine
  · rw [if_neg hDone, if_neg hDone]
    refine .of_wait hSent hFits hLine rfl fun signal hSignal line o hFits => ?_
    have hLeft : Activity.Alike output o (output.offered line.captured) ((settle x.1 x.2).1, line)
        ((settle x'.1 x'.2).1, line.look output o) := ⟨hActs, rfl, hFits, rfl⟩
    obtain ⟨hActs', hLine', hFits', hSent'⟩ :=
      resumeOthers_lockstep (fun hConsumer => (hSignal hConsumer).2) true hLeft
    dsimp only at hActs' hLine' hFits' hSent' ⊢
    rw [Line.view_look, hEmpty hActs']
    by_cases hDone' : (resumeOthers signal true (settle x.1 x.2).1 line).1.isEmpty = true
    · rw [if_pos hDone', if_pos hDone']
      exact .of_done hSent' hFits' hLine'
    · -- Nothing moves these stages any more, and with a consumer nobody stops them.
      rw [if_neg hDone', if_neg hDone']
      refine .of_wait hSent' hFits' hLine' rfl fun signal hSignal line o hFits => ?_
      have hStop : Activity.Alike output o (output.offered line.captured)
          ((resumeOthers _ true (settle x.1 x.2).1 _).1, line.stop)
          ((resumeOthers _ true _ _).1, (line.look output o).stop) :=
        ⟨hActs', rfl, fun hConsumer => absurd rfl (hSignal hConsumer).1, rfl⟩
      obtain ⟨hEnd, hEndFits, hEndSent⟩ := stopAll_look hStop
      exact .of_done hEndSent hEndFits hEnd

theorem drive_mirrors {r r' : Run Line Unit}
    (h : r.Mirrors (Line.view output (output = .consumer)) output.Hears o sent r') {acts acts' : List Activity}
    (hActs : List.Forall₂ (Activity.Mirrors output) acts acts') :
    (drive acts r).Mirrors (Line.view output (output = .consumer)) output.Hears o sent (drive acts' r') := by
  induction h generalizing acts acts' with
  | @done o sent _ line hSent hFits =>
    have hStart : Activity.Alike output o sent (acts, line) (acts', line.look output o) := ⟨hActs, rfl, hFits, hSent⟩
    exact await_mirrors hStart
  | @wait o sent why why' line resume resume' hSent hFits hOffer hWhy hResume ih =>
    have hNext (idle : Bool) (signal : Signal) (hSignal : output.Hears why' signal) (line : Line) (o : Bytes)
        (hFits : output = .consumer → line.stopped = false) :
        (drive (resumeOthers signal idle acts line).1 (resume signal (resumeOthers signal idle acts line).2)).Mirrors
          (Line.view output (output = .consumer)) output.Hears o (output.offered line.captured)
          (drive (resumeOthers signal idle acts' (line.look output o)).1
            (resume' signal (resumeOthers signal idle acts' (line.look output o)).2)) := by
      have hStart : Activity.Alike output o (output.offered line.captured) (acts, line) (acts', line.look output o) :=
        ⟨hActs, rfl, hFits, rfl⟩
      obtain ⟨hActs', hLine, hFits', hSent'⟩ :=
        resumeOthers_lockstep (fun hConsumer => (hSignal hConsumer).2) idle hStart
      dsimp only at hActs' hLine hFits' hSent'
      rw [hLine, ← hSent']
      exact ih signal hSignal _ o hFits' hActs'
    rcases hWhy with rfl | ⟨hConsumer, rfl, data, rfl⟩
    · cases why' with
      | stop => exact .of_wait hSent hFits rfl rfl (hNext false)
      | never => exact .of_wait hSent hFits rfl rfl (hNext false)
      | input i =>
        refine .of_wait hSent hFits rfl rfl fun signal hSignal => hNext true signal fun hConsumer => ?_
        exact ⟨by simp, (hSignal hConsumer).2⟩
      | room i =>
        refine .of_wait hSent hFits rfl rfl fun signal hSignal => hNext false signal fun hConsumer => ?_
        exact ⟨by simp, (hSignal hConsumer).2⟩
      | offer data endless => cases hOffer
    · exact .wait hSent hFits rfl (.inr ⟨hConsumer, rfl, data, rfl⟩) (hNext false)
  | offer hTaps _ ih => exact .offer hTaps (ih hActs)

theorem runStages_mirrors (hNested : nested.Blind) (p : Pipeline) {line : Line}
    (hFits : output = .consumer → line.stopped = false) :
    (v.runStages nested .capture p line).Mirrors (Line.view output (output = .consumer)) output.Hears o
      (output.offered line.captured) (v.runStages nested output p (line.look output o)) := by
  have hLaunched : Launched.Alike output o (output.offered line.captured)
      (v.launchAll nested .capture 0 [] p.commands line)
      (v.launchAll nested output 0 [] p.commands (line.look output o)) :=
    launchAll_alike hNested p.commands .nil hFits
  unfold runStages
  cases hCapture : v.launchAll nested .capture 0 [] p.commands line with
  | mk launched line' =>
    cases hOther : v.launchAll nested output 0 [] p.commands (line.look output o) with
    | mk launched' line'' =>
      rw [hCapture, hOther] at hLaunched
      cases launched with
      | aborted fault acts =>
        cases launched' with
        | aborted fault' acts' =>
          obtain ⟨rfl, h⟩ := hLaunched
          have hCanceled : Activity.Alike output o (output.offered line.captured)
              (acts, { line' with canceled := true }) (acts', { line'' with canceled := true }) := by
            refine ⟨h.acts, ?_, h.fits, h.sent⟩
            rw [show line'' = line'.look output o from h.line]
            rfl
          obtain ⟨hEnd, hEndFits, hEndSent⟩ := stopAll_look (settle_lockstep hCanceled)
          exact .of_done hEndSent hEndFits hEnd
        | complete acts' last' => cases hLaunched
      | complete acts last =>
        cases launched' with
        | aborted fault' acts' => cases hLaunched
        | complete acts' last' =>
          obtain ⟨hLast, h⟩ := hLaunched
          obtain ⟨hActs, hLine, hFits', hSent⟩ := settle_lockstep h
          dsimp only at hActs hLine hFits' hSent ⊢
          rw [hLine, ← hSent]
          exact (drive_mirrors (hLast _ o hFits') hActs).bind fun _ _ _ hFits => .of_done rfl hFits rfl

/-- The light on the phases of a script that a stage runs. -/
def Phase.view : View Phase where
  look o phase := { phase with world := phase.world.withOutput o }
  sent _ := []
  taps := False
  Fits _ := True

theorem traced_withOutput (p : Pipeline) (w : World) (o : Bytes) :
    v.traced p (w.withOutput o) = (v.traced p w).withOutput o := by
  have hFlag : v.flag (w.withOutput o) debugVar = v.flag w debugVar := rfl
  unfold traced
  rw [hFlag]
  split <;> rfl

theorem runPipeline_mirrors (hNested : nested.Blind) (p : Pipeline) (phase : Phase) (o : Bytes) :
    (v.runPipeline nested .capture p phase).Mirrors Phase.view (fun _ _ => True) o []
      (v.runPipeline nested .capture p (Phase.view.look o phase)) := by
  unfold runPipeline
  dsimp only [Phase.view]
  rw [traced_withOutput]
  have hStages : (v.runStages nested .capture p (v.openLine p { phase with world := v.traced p phase.world })).Mirrors
      (Line.view .capture (Output.capture = .consumer)) (fun _ _ => True) o []
      (v.runStages nested .capture p ((v.openLine p { phase with world := v.traced p phase.world }).look .capture o)) :=
    (runStages_mirrors hNested p (by simp)).mono fun _ _ _ => by simp [Output.Hears]
  exact hStages.within_bind (by simp [Line.view]) (fun _ _ => rfl) (fun _ _ _ _ _ => rfl) (fun _ _ => trivial)
    (fun _ _ _ _ _ h => by cases h) (fun _ => rfl) (fun _ _ _ => rfl) fun _ _ _ _ => .of_done rfl trivial rfl

theorem runAlternatives_mirrors (hNested : nested.Blind) (alternatives : List Pipeline) (phase : Phase) (o : Bytes) :
    (v.runAlternatives nested .capture alternatives phase).Mirrors Phase.view (fun _ _ => True) o []
      (v.runAlternatives nested .capture alternatives (Phase.view.look o phase)) := by
  induction alternatives generalizing phase o with
  | nil => exact .of_done rfl trivial rfl
  | cons p rest ih =>
    refine (runPipeline_mirrors hNested p phase o).bind fun (fault, text) phase o _ => ?_
    cases fault with
    | none => exact .of_done rfl trivial rfl
    | some fault =>
      dsimp only
      split
      · exact .of_done rfl trivial rfl
      · split
        · exact .of_done rfl trivial rfl
        · exact ih phase o

theorem runStatements_mirrors (hNested : nested.Blind) (statements : List Statement) (text : Bytes) (phase : Phase)
    (o : Bytes) :
    (v.runStatements nested .capture text statements phase).Mirrors Phase.view (fun _ _ => True) o []
      (v.runStatements nested .capture text statements (Phase.view.look o phase)) := by
  induction statements generalizing text phase o with
  | nil => exact .of_done rfl trivial rfl
  | cons s rest ih =>
    refine (runAlternatives_mirrors hNested s.alternatives phase o).bind fun result phase o _ => ?_
    cases result with
    | error fault => exact .of_done rfl trivial rfl
    | ok text => exact ih text phase o

end Invoker

theorem Context.enter_withOutput (context : Context) (w : World) (o : Bytes) :
    context.enter (w.withOutput o) = ((context.enter w).1, (context.enter w).2.withOutput o) := by
  unfold Context.enter
  split <;> rfl

theorem executeWith_mirrors (hNested : nested.Blind) (programs : Host.Programs) (context : Context) (script : Script)
    (w : World) (o : Bytes) :
    (executeWith nested programs context .capture script w).Mirrors World.view (fun _ _ => True) o []
      (executeWith nested programs context .capture script (w.withOutput o)) := by
  unfold executeWith
  rw [Context.enter_withOutput]
  dsimp only
  have hStatements := Invoker.runStatements_mirrors (v := ⟨programs, context, (context.enter w).1⟩) hNested
    script.statements [] ⟨(context.enter w).2, .opened, context.canceled || false, false⟩ o
  refine Run.Mirrors.within_bind (V := Invoker.Phase.view)
    (hStatements.bind fun result phase o _ => .of_done rfl trivial rfl)
    id (fun _ _ => rfl) (fun _ _ _ _ _ => rfl) (fun _ _ => trivial) (fun _ _ _ _ _ => trivial) (fun _ => rfl)
    (fun _ _ _ => rfl) fun _ _ _ _ => .of_done rfl trivial rfl

theorem nestedRun_blind (programs : Host.Programs) (depth : Nat) : (nestedRun programs depth).Blind := by
  induction depth with
  | zero => exact fun _ _ _ _ _ _ => .of_done rfl trivial rfl
  | succ depth ih =>
    intro context file line text w o
    unfold nestedRun
    cases Script.parse ⟨context.symbols, file, line⟩ text with
    | error mistake => exact .of_done rfl trivial rfl
    | ok script => exact executeWith_mirrors ih programs context script w o

end Pipelines

end Pipework
