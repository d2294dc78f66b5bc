import Pipework.Proofs.Flags.InStep
import Pipework.Proofs.Stage.Launch
import Pipework.Proofs.Stage.Sweep

/-!
# What a pipeline cannot undo

As long as no stage runs a script, the trace stays as it is while a pipeline is at work, and a failure that is to
end the pipeline is not forgotten. This is said of one step of a stage, and then of all that the engine does with
the stages: each time it is resumed, it leaves a later line of the one that it found.
-/

namespace Pipework

/-- What becomes of the line `l` while stages go on. -/
structure Line.Later (l l' : Line) : Prop where
  trace : l'.world.trace = l.world.trace
  ground : l'.world.ground = l.world.ground
  cancels : l.board.cancels = true → l'.board.cancels = true

namespace Line.Later

theorem refl (l : Line) : l.Later l := ⟨rfl, rfl, id⟩

theorem trans {a b c : Line} (h : a.Later b) (h' : b.Later c) : a.Later c :=
  ⟨h'.trace.trans h.trace, h'.ground.trans h.ground, h'.cancels ∘ h.cancels⟩

theorem chain (a b c : Line) : a.Later b → b.Later c → a.Later c := trans

theorem stop (l : Line) : l.Later l.stop := ⟨rfl, rfl, id⟩

theorem cancel (l : Line) : l.Later { l with canceled := true } := ⟨rfl, rfl, id⟩

end Line.Later

theorem Board.cancels_complete {b : Board} (h : b.cancels = true) (isLast : Bool) (result : Option Failure) :
    (b.complete isLast result).cancels = true := by
  obtain ⟨hPipefail, hFirst⟩ := Bool.and_eq_true_iff.mp h
  have hSome : (b.first.or result).isSome = true := by rw [Option.isSome_or, hFirst, Bool.true_or]
  exact Bool.and_eq_true_iff.mpr ⟨hPipefail, hSome⟩

theorem Board.verdict_ne_none {b : Board} (h : b.cancels = true) : b.verdict ≠ none := by
  obtain ⟨hPipefail, hFirst⟩ := Bool.and_eq_true_iff.mp h
  unfold verdict
  rw [if_pos hPipefail]
  intro hNone
  rw [Option.or_eq_none_iff.mp hNone |>.1] at hFirst
  cases hFirst

/-- What only the end of a stage changes. -/
def Line.record (l : Line) : Board × Bytes × (String → Option Builtin) × String :=
  (l.board, l.world.trace, l.world.ground)

theorem World.trace_serve (w : World) (storage : Storage) (request : FileRequest) :
    (w.serve storage request).2.trace = w.trace := by
  obtain ⟨memory, tree, hServe⟩ := w.serve_eq storage request
  rw [hServe]

theorem Line.record_serve (l : Line) (storage : Storage) (request : FileRequest) :
    record { l with world := (l.world.serve storage request).2 } = l.record := by
  rw [record, record, World.trace_serve, World.ground_serve]

theorem Line.aloof_record : Aloof record where
  input _ _ := rfl
  output _ _ := rfl
  errors _ _ := rfl
  captured _ _ := rfl
  pipes _ _ := rfl
  mocks _ _ := rfl
  serve l _ _ _ := l.record_serve _ _

/-- Neither asks for the variable `key` nor sets it, nor runs a script, which might do so. -/
def Action.Avoids (key : String) : Action → Prop
  | .lookup k => k ≠ key
  | .assign k _ => k ≠ key
  | .invoke _ _ _ => False
  | _ => True

def Program.Avoids {α : Type} (key : String) : Program α → Prop
  | .done _ => True
  | .act action next => action.Avoids key ∧ ∀ answer, (next answer).Avoids key

namespace Invoker

/-- As it is launched in `line`, the command does not see the variable `key`, does not set it and runs no script. A
process is the same if it is started without the variable. -/
structure Ignores (v : Invoker) (key : String) (output : Output) (index : Nat) (isLast : Bool) (c : Command)
    (line : Line) : Prop where
  avoids : ∀ start line', v.launch output index isLast c line = (.ok start, line') → Program.Avoids key start.task
  blind : line.world.builtin? (c.args.headD "") = none → ∀ wiring world,
    (Wiring.initial (if index = 0 then Source.host else .pipe)).redirectAll .host (v.directory line.world)
      c.redirections line.world = (.ok wiring, world) →
    Host.start v.programs world.host line.canceled (v.directory line.world) c.args ((v.processEnv world c).erase key) =
      Host.start v.programs world.host line.canceled (v.directory line.world) c.args (v.processEnv world c)

/-- Each of the commands ignores the variable `key` in the line in which it is launched. -/
def Heedless (v : Invoker) (nested : Nested) (key : String) (output : Output) : Nat → List Command → Line → Prop
  | _, [], _ => True
  | index, c :: rest, line =>
    v.Ignores key output index rest.isEmpty c line ∧
      ∀ start line', v.launch output index rest.isEmpty c line = (.ok start, line') →
        Heedless v nested key output (index + 1) rest
          (if start.inOrder then (start.run nested line').complete.2 else line')

end Invoker

theorem Action.Avoids.invokes {key : String} {action : Action} (h : action.Avoids key) : action.invokes = false := by
  cases action with
  | invoke file line script => exact h.elim
  | _ => rfl

namespace Stage

variable (st : Stage) (nested : Nested) (desk : Desk) (line : Line)

theorem perform_leaves_record {action : Action} (hInvokes : action.invokes = false) :
    (st.perform nested desk line action).Leaves Line.record line.record := by
  cases action with
  | assign key value => rfl
  | files storage request => exact line.record_serve storage request
  | invoke file number script => cases hInvokes
  | _ => exact Line.aloof_record.perform st nested desk line rfl rfl rfl

theorem perform_advances {action : Action} (hInvokes : action.invokes = false) :
    (st.perform nested desk line action).Advances Line.Later line := by
  refine (st.perform_leaves_record nested desk line hInvokes).advances.mono fun l l' hSame => ?_
  obtain ⟨hBoard, hRest⟩ := Prod.mk.inj hSame
  obtain ⟨hTrace, hGround⟩ := Prod.mk.inj hRest
  exact ⟨hTrace, hGround, fun h => hBoard ▸ h⟩

theorem later_close (fault : Option Fault) : line.Later (st.close fault desk line) where
  trace := by
    have hAloof : World.Aloof World.trace := World.trace_serve
    rw [close, World.releaseAll_eq]
    exact hAloof.closeAll _ _
  ground := st.ground_close desk line fault
  cancels h := Board.cancels_complete h _ _

variable {key : String} {task : Program (Except Fault Unit)}

theorem run_advances (hTask : task.Avoids key) (desk : Desk) (line : Line) :
    (st.run nested task desk line).Advances Line.Later line := by
  induction task generalizing desk line with
  | done result => exact st.later_close desk line _
  | act action next ih =>
    unfold run
    refine (st.perform_advances nested desk line hTask.1.invokes).bind Line.Later.chain fun (desk, answer) line => ?_
    cases answer with
    | some answer => exact ih answer (hTask.2 answer) desk line
    | none => exact st.later_close desk line _

end Stage

namespace Activity

def Advances : Activity → Prop
  | .fresh start => ∀ line, (start line).Advances Line.Later line
  | .waiting _ resume => ∀ signal line, (resume signal line).Advances Line.Later line

def Marches (f : List Activity → Line → List Activity × Line) : Prop :=
  ∀ acts line, (∀ a ∈ acts, a.Advances) → (∀ a ∈ (f acts line).1, a.Advances) ∧ line.Later (f acts line).2

/-- Going on with one stage by `f` leaves a later line. -/
def Steers (f : Activity → Line → Option Activity × Line) : Prop :=
  ∀ a line, a.Advances → (∀ b ∈ (f a line).1.toList, b.Advances) ∧ line.Later (f a line).2

theorem marches_stepwise : Stepwise Steers Marches where
  sweep {f} hf acts line hActs := by
    induction acts generalizing line with
    | nil => exact ⟨hActs, .refl line⟩
    | cons a acts ih =>
      obtain ⟨hFirst, hRest⟩ := List.forall_mem_cons.mp hActs
      obtain ⟨hLeft, hLater⟩ := hf a line hFirst
      obtain ⟨hLeft', hLater'⟩ := ih (f a line).2 hRest
      exact ⟨List.forall_mem_append.mpr ⟨hLeft, hLeft'⟩, hLater.trans hLater'⟩
  keep acts line hActs := ⟨hActs, .refl line⟩
  comp hf hg acts line hActs := by
    obtain ⟨hLeft, hLater⟩ := hf acts line hActs
    obtain ⟨hLeft', hLater'⟩ := hg _ _ hLeft
    exact ⟨hLeft', hLater.trans hLater'⟩
  count hf acts line hActs := hf acts.length acts line hActs

theorem ofRun_advances {r : Run Line Unit} {line : Line} (h : r.Advances Line.Later line) :
    (∀ a ∈ (ofRun r).1.toList, a.Advances) ∧ line.Later (ofRun r).2 := by
  cases r with
  | done result state => exact ⟨by simp [ofRun], h⟩
  | wait why state resume => exact ⟨by simpa [ofRun, Advances] using h.2, h.1⟩

theorem proceed_steers : Steers proceed := by
  intro a line h
  cases a with
  | fresh start => exact ofRun_advances (h line)
  | waiting why resume =>
    unfold proceed
    dsimp only
    split
    · exact ofRun_advances (h _ line)
    · exact ⟨by simpa [Advances] using h, .refl line⟩

theorem lapse_advances {r : Run Line Unit} {line : Line} (h : r.Advances Line.Later line) :
    (∀ a ∈ (lapse r).1.toList, a.Advances) ∧ line.Later (lapse r).2 := by
  induction r generalizing line with
  | done result state => exact ofRun_advances h
  | wait why state resume ih =>
    cases why with
    | stop =>
      obtain ⟨hLeft, hLater⟩ := ih .ready state (h.2 .ready state)
      exact ⟨hLeft, h.1.trans hLater⟩
    | _ => exact ofRun_advances h

theorem tick_steers : Steers tick := by
  intro a line h
  have hKept : (∀ b ∈ [a], b.Advances) ∧ line.Later line := ⟨List.forall_mem_singleton.mpr h, .refl line⟩
  cases a with
  | fresh start => exact hKept
  | waiting why resume =>
    cases why with
    | stop => exact lapse_advances (h .ready line)
    | _ => exact hKept

theorem halt_steers : Steers halt := by
  intro a line h
  cases a with
  | fresh start => exact ⟨by simp [halt], (h line).finish Line.Later.chain⟩
  | waiting why resume => exact ⟨by simp [halt], (h (.stop 0) line).finish Line.Later.chain⟩

theorem settle_marches : Marches settle := marches_stepwise.settle proceed_steers

theorem outlast_marches : Marches outlast := marches_stepwise.outlast proceed_steers tick_steers

theorem stopAll_later {acts : List Activity} (hActs : ∀ a ∈ acts, a.Advances) (line : Line) :
    line.Later (stopAll acts line) := by
  rw [stopAll_eq_sweep]
  exact (marches_stepwise.sweep halt_steers acts line hActs).2

end Activity

def Launched.Advances : Launched → Prop
  | .aborted _ acts => ∀ a ∈ acts, a.Advances
  | .complete acts last => (∀ a ∈ acts, a.Advances) ∧ ∀ line, (last line).Advances Line.Later line

namespace Invoker

open Activity

variable {v : Invoker} {nested : Nested} {output : Output}

theorem resumeOthers_marches (signal : Signal) (idle : Bool) : Marches (resumeOthers signal idle) := by
  intro acts line hActs
  cases signal with
  | stop taken =>
    obtain ⟨hLeft, hLater⟩ := settle_marches acts line.stop hActs
    exact ⟨hLeft, (Line.Later.stop line).trans hLater⟩
  | ready =>
    cases idle with
    | true => exact outlast_marches acts line hActs
    | false => exact ⟨hActs, .refl line⟩

theorem await_advances {acts : List Activity} (hActs : ∀ a ∈ acts, a.Advances) (line : Line) :
    (await acts line).Advances Line.Later line := by
  obtain ⟨hSettled, hLater⟩ := settle_marches acts line hActs
  unfold await
  dsimp only
  split
  · exact hLater
  · refine ⟨hLater, fun signal line => ?_⟩
    obtain ⟨hLeft, hLater'⟩ := resumeOthers_marches signal true _ line hSettled
    dsimp only
    split
    · exact hLater'
    · exact ⟨hLater', fun signal line => (Line.Later.stop line).trans (stopAll_later hLeft _)⟩

theorem drive_advances {r : Run Line Unit} {acts : List Activity} (hActs : ∀ a ∈ acts, a.Advances) {line : Line}
    (h : r.Advances Line.Later line) : (drive acts r).Advances Line.Later line := by
  induction r generalizing acts line with
  | done result state => exact (await_advances hActs state).after Line.Later.chain h
  | wait why state resume ih =>
    refine ⟨h.1, fun signal line => ?_⟩
    have hOthers (idle : Bool) := resumeOthers_marches signal idle acts line hActs
    exact (ih signal _ (hOthers _).1 (h.2 signal _)).after Line.Later.chain (hOthers _).2

variable {key : String} {c : Command} {index : Nat} {isLast : Bool} {line : Line}

theorem later_launch : line.Later (v.launch output index isLast c line).2 where
  trace := World.Aloof.launch World.trace_serve (fun _ _ => rfl) v output index isLast c line
  ground := v.ground_launch output index isLast c line
  cancels h :=
    (congrArg (fun s => s.board.cancels) (v.status_launch output index isLast c line)).trans h

theorem launchAll_advances {commands : List Command} (hHeedless : v.Heedless nested key output index commands line)
    {running : List Activity} (hRunning : ∀ a ∈ running, a.Advances) :
    (v.launchAll nested output index running commands line).1.Advances ∧
      line.Later (v.launchAll nested output index running commands line).2 := by
  induction commands generalizing index running line with
  | nil => exact ⟨⟨hRunning, Line.Later.refl⟩, .refl line⟩
  | cons c rest ih =>
    obtain ⟨hIgnores, hRest⟩ := hHeedless
    have hLater : line.Later (v.launch output index rest.isEmpty c line).2 := later_launch
    rw [launchAll_cons]
    split
    · next fault line' hLaunch =>
      rw [hLaunch] at hLater
      exact ⟨hRunning, hLater⟩
    · next start line' hLaunch =>
      rw [hLaunch] at hLater
      have hRun (line : Line) : (start.run nested line).Advances Line.Later line :=
        start.stage.run_advances nested (hIgnores.avoids start line' hLaunch) start.desk line
      have hNext := hRest start line' hLaunch
      split
      · exact ⟨⟨hRunning, hRun⟩, hLater⟩
      · split
        · next hOrder =>
          rw [if_pos hOrder] at hNext
          obtain ⟨hLeft, hLater'⟩ := ih hNext hRunning
          exact ⟨hLeft, (hLater.trans ((hRun line').complete Line.Later.chain)).trans hLater'⟩
        · next hOrder =>
          rw [if_neg hOrder] at hNext
          have hFresh : ∀ a ∈ running ++ [.fresh (start.run nested)], a.Advances :=
            List.forall_mem_append.mpr ⟨hRunning, List.forall_mem_singleton.mpr hRun⟩
          obtain ⟨hLeft, hLater'⟩ := ih hNext hFresh
          exact ⟨hLeft, hLater.trans hLater'⟩

theorem runStages_advances {p : Pipeline} (hHeedless : v.Heedless nested key output 0 p.commands line) :
    (v.runStages nested output p line).Advances Line.Later line := by
  have hNone : ∀ a ∈ ([] : List Activity), a.Advances := by simp
  obtain ⟨hLaunched, hLater⟩ := launchAll_advances hHeedless hNone
  unfold runStages
  split
  · next fault acts line' hLaunch =>
    rw [hLaunch] at hLaunched hLater
    obtain ⟨hSettled, hLater'⟩ := settle_marches acts { line' with canceled := true } hLaunched
    exact ((hLater.trans (.cancel line')).trans hLater').trans (stopAll_later hSettled _)
  · next acts last line' hLaunch =>
    rw [hLaunch] at hLaunched hLater
    obtain ⟨hSettled, hLater'⟩ := settle_marches acts line' hLaunched.1
    refine Run.Advances.after Line.Later.chain (hLater.trans hLater') ?_
    exact (drive_advances hSettled (hLaunched.2 _)).bind Line.Later.chain fun _ line => Line.Later.refl line

end Invoker

end Pipework
