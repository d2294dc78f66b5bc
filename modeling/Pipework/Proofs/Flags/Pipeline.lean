import Mathlib.Data.List.Forall2
import Pipework.Proofs.Flags.Stage

/-!
# Pipelines that go in step

The engine goes on with the stages of a pipeline alike with a variable and without it, until a stage loses step.
Then the line of the first run has a failure that ends its pipeline, and so has every later line.
-/

namespace Pipework

namespace Hiding

variable {H : Hiding} {α : Type} {line : Line}

theorem Lost.doomed {r : Run Line α} (hAdvances : r.Advances Line.Later line) (hLost : H.Lost line) :
    r.Doomed H.Lost fun _ => H.Lost :=
  hAdvances.doomed (fun _ _ hLater hLost => Lost.later hLost hLater) hLost

theorem Lost.doomed_state {r : Run Line α} (hAdvances : r.Advances Line.Later line) (hLost : H.Lost r.state) :
    r.Doomed H.Lost fun _ => H.Lost := by
  cases r with
  | done a state => exact hLost
  | wait why state resume => exact ⟨hLost, fun signal line hLost => Lost.doomed (hAdvances.2 signal line) hLost⟩

theorem Lost.of_doomed {r : Run Line α} (h : r.Doomed H.Lost fun _ => H.Lost) : H.Lost r.state := by
  cases r with
  | done a state => exact h
  | wait why state resume => exact h.1

theorem verdict_board (h : ¬H.Lost line) : (H.board line.board).verdict = line.board.verdict := by
  obtain ⟨world, scope, pipes, broken, captured, ⟨pipefail, first, last⟩, canceled, stopped⟩ := line
  by_cases hKey : H.key = pipefailVar
  · have hKept : (pipefail && first.isSome) = false := eq_false_of_ne_true fun hLost => h ⟨hKey, hLost⟩
    unfold board Board.verdict
    cases pipefail with
    | false => simp
    | true =>
      obtain rfl : first = none := by simpa using hKept
      simp [hKey]
  · simp [board, Board.verdict, hKey]

theorem Lost.verdict (h : H.Lost line) : line.board.verdict ≠ none := Board.verdict_ne_none h.2

open Activity

variable (H)

/-- What is left of the same stage, other than the last, in the first run and in the second. -/
inductive Follows : Activity → Activity → Prop
  | fresh {start start' : Line → Run Line Unit} (hAdvances : (fresh start).Advances)
      (hStart : ∀ line, H.Fits line → (start line).InStep H.shadow (fun _ => H.Lost) (start' (H.line line))) :
      Follows (.fresh start) (.fresh start')
  | waiting {why : Wait} {resume resume' : Signal → Line → Run Line Unit} (hAdvances : (waiting why resume).Advances)
      (hResume : ∀ signal line, H.Fits line →
        (resume signal line).InStep H.shadow (fun _ => H.Lost) (resume' signal (H.line line))) :
      Follows (.waiting why resume) (.waiting why resume')

/-- The stages that are left of a pipeline in the first run, and in the second unless that has lost step. -/
inductive Alike (x x' : List Activity × Line) : Prop
  | lost (hLost : H.Lost x.2)
  | step (hActs : List.Forall₂ (Follows H) x.1 x'.1) (hLine : x'.2 = H.line x.2) (hFits : H.Fits x.2)

/-- Going on with stages by `f` keeps in step. -/
structure Lockstep (f : List Activity → Line → List Activity × Line) : Prop where
  marches : Marches f
  alike : ∀ {acts acts' : List Activity} {line : Line}, List.Forall₂ (Follows H) acts acts' → H.Fits line →
    Alike H (f acts line) (f acts' (H.line line))

/-- Going on with one stage by `f` keeps in step. -/
structure KeepsStep (f : Activity → Line → Option Activity × Line) : Prop where
  steers : Steers f
  alike : ∀ {a a' : Activity} {line : Line}, Follows H a a' → H.Fits line →
    Alike H ((f a line).1.toList, (f a line).2) ((f a' (H.line line)).1.toList, (f a' (H.line line)).2)

variable {H} {line : Line}

theorem Follows.advances {acts acts' : List Activity} (h : List.Forall₂ (Follows H) acts acts') :
    ∀ a ∈ acts, a.Advances := by
  induction h with
  | nil => simp
  | cons hFirst _ ih =>
    refine List.forall_mem_cons.mpr ⟨?_, ih⟩
    cases hFirst with
    | fresh hAdvances _ => exact hAdvances
    | waiting hAdvances _ => exact hAdvances

theorem lockstep_stepwise : Stepwise (KeepsStep H) (Lockstep H) where
  sweep {f} hf := by
    refine ⟨marches_stepwise.sweep hf.steers, fun {acts acts' line} hActs hFits => ?_⟩
    induction hActs generalizing line with
    | nil => exact .step .nil rfl hFits
    | @cons a a' acts acts' hFirst hRest ih =>
      unfold sweep
      rcases hf.alike hFirst hFits with hLost | ⟨hLeft, hLine, hFits'⟩
      · exact .lost (hLost.later (marches_stepwise.sweep hf.steers acts _ (Follows.advances hRest)).2)
      · dsimp only at hLeft hLine hFits'
        rw [hLine]
        rcases ih hFits' with hLost | ⟨hLeft', hLine', hFits''⟩
        · exact .lost hLost
        · exact .step (List.rel_append hLeft hLeft') hLine' hFits''
  keep := ⟨marches_stepwise.keep, fun hActs hFits => .step hActs rfl hFits⟩
  comp {f g} hf hg := by
    refine ⟨marches_stepwise.comp hf.marches hg.marches, fun {acts acts' line} hActs hFits => ?_⟩
    have hLeft := (hf.marches acts line (Follows.advances hActs)).1
    rcases hf.alike hActs hFits with hLost | ⟨hActs', hLine, hFits'⟩
    · exact .lost (hLost.later (hg.marches _ _ hLeft).2)
    · rw [hLine]
      exact hg.alike hActs' hFits'
  count {f} hf := by
    refine ⟨marches_stepwise.count fun n => (hf n).marches, fun {acts acts' line} hActs hFits => ?_⟩
    rw [← hActs.length_eq]
    exact (hf acts.length).alike hActs hFits

variable {r r' : Run Line Unit}

theorem ofRun_alike (hAdvances : r.Advances Line.Later line) (h : r.InStep H.shadow (fun _ => H.Lost) r') :
    Alike H ((ofRun r).1.toList, (ofRun r).2) ((ofRun r').1.toList, (ofRun r').2) := by
  cases h with
  | done hFits => exact .step .nil rfl hFits
  | wait hFits hResume => exact .step (.cons (.waiting hAdvances.2 hResume) .nil) rfl hFits
  | lost h =>
    have hState : (ofRun r).2 = r.state := by cases r <;> rfl
    refine .lost ?_
    rw [hState]
    exact .of_doomed h

@[simp] theorem isDue_line (line : Line) (why : Wait) : isDue (H.line line) why = isDue line why := by
  cases why <;> rfl

theorem proceed_keepsStep : KeepsStep H proceed where
  steers := proceed_steers
  alike {a a' line} h hFits := by
    cases h with
    | fresh hAdvances hStart => exact ofRun_alike (hAdvances line) (hStart line hFits)
    | @waiting why resume resume' hAdvances hResume =>
      have hCanceled : (H.line line).canceled = line.canceled := rfl
      unfold proceed
      dsimp only
      rw [isDue_line, hCanceled]
      by_cases hDue : isDue line why = true
      · rw [if_pos hDue, if_pos hDue]
        exact ofRun_alike (hAdvances _ line) (hResume _ line hFits)
      · rw [if_neg hDue, if_neg hDue]
        exact .step (.cons (.waiting hAdvances hResume) .nil) rfl hFits

theorem lost_lapse (h : r.Doomed H.Lost fun _ => H.Lost) : H.Lost (lapse r).2 := by
  induction r with
  | done result state => exact h
  | wait why state resume ih =>
    cases why with
    | stop => exact ih .ready state (h.2 .ready state h.1)
    | _ => exact h.1

theorem lapse_alike (hAdvances : r.Advances Line.Later line) (h : r.InStep H.shadow (fun _ => H.Lost) r') :
    Alike H ((lapse r).1.toList, (lapse r).2) ((lapse r').1.toList, (lapse r').2) := by
  induction h generalizing line with
  | done hFits => exact .step .nil rfl hFits
  | @wait why state resume resume' hFits hResume ih =>
    cases why with
    | stop => exact ih .ready state hFits (hAdvances.2 .ready state)
    | _ => exact ofRun_alike hAdvances (.wait hFits hResume)
  | @lost r r' h => exact .lost (lost_lapse h)

theorem tick_keepsStep : KeepsStep H tick where
  steers := tick_steers
  alike {a a' line} h hFits := by
    have hKept : Alike H ([a], line) ([a'], H.line line) := .step (.cons h .nil) rfl hFits
    cases h with
    | fresh hAdvances hStart => exact hKept
    | @waiting why resume resume' hAdvances hResume =>
      cases why with
      | stop => exact lapse_alike (hAdvances .ready line) (hResume .ready line hFits)
      | _ => exact hKept

theorem halt_keepsStep : KeepsStep H halt where
  steers := halt_steers
  alike {a a' line} h hFits := by
    have hEnd {r r' : Run Line Unit} (h : r.InStep H.shadow (fun _ => H.Lost) r') :
        Alike H ([], r.finish.2) ([], r'.finish.2) := by
      rcases h.finish with hLost | ⟨hFits', hFinish⟩
      · exact .lost hLost
      · exact .step .nil (congrArg Prod.snd hFinish) hFits'
    cases h with
    | fresh hAdvances hStart => exact hEnd (hStart line hFits)
    | waiting hAdvances hResume => exact hEnd (hResume (.stop 0) line hFits)

theorem settle_lockstep : Lockstep H settle := lockstep_stepwise.settle proceed_keepsStep

theorem outlast_lockstep : Lockstep H outlast := lockstep_stepwise.outlast proceed_keepsStep tick_keepsStep

theorem stopAll_alike {acts acts' : List Activity} (hActs : List.Forall₂ (Follows H) acts acts') (hFits : H.Fits line) :
    H.Lost (stopAll acts line) ∨
      stopAll acts' (H.line line) = H.line (stopAll acts line) ∧ H.Fits (stopAll acts line) := by
  rw [stopAll_eq_sweep, stopAll_eq_sweep]
  rcases (lockstep_stepwise.sweep halt_keepsStep).alike hActs hFits with hLost | ⟨-, hLine, hFits'⟩
  · exact .inl hLost
  · exact .inr ⟨hLine, hFits'⟩

/-- The stages that were launched in the first run, and in the second unless that has lost step. -/
inductive AlikeLaunched (H : Hiding) : Launched × Line → Launched × Line → Prop
  | lost {x x' : Launched × Line} (hLost : H.Lost x.2) : AlikeLaunched H x x'
  | aborted {fault : Fault} {acts acts' : List Activity} {line : Line}
      (hActs : List.Forall₂ (Follows H) acts acts') (hFits : H.Fits line) :
      AlikeLaunched H (.aborted fault acts, line) (.aborted fault acts', H.line line)
  | complete {acts acts' : List Activity} {last last' : Line → Run Line Unit} {line : Line}
      (hActs : List.Forall₂ (Follows H) acts acts')
      (hLast : ∀ line, H.Fits line → (last line).InStep H.shadow (fun _ => H.Lost) (last' (H.line line)))
      (hFits : H.Fits line) : AlikeLaunched H (.complete acts last, line) (.complete acts' last', H.line line)

open Invoker

variable {v : Invoker} {nested : Nested} {output : Output}

theorem resumeOthers_lockstep (signal : Signal) (idle : Bool) : Lockstep H (resumeOthers signal idle) where
  marches := resumeOthers_marches signal idle
  alike {acts acts' line} hActs hFits := by
    cases signal with
    | stop taken =>
      have hStop : H.Fits line.stop := hFits
      exact settle_lockstep.alike hActs hStop
    | ready =>
      cases idle with
      | true => exact outlast_lockstep.alike hActs hFits
      | false => exact .step hActs rfl hFits

theorem state_await (acts : List Activity) (line : Line) : (await acts line).state = (settle acts line).2 := by
  unfold await
  dsimp only
  split <;> rfl

theorem stopAll_inStep {acts acts' : List Activity} (hActs : List.Forall₂ (Follows H) acts acts')
    (hFits : H.Fits line) :
    (Run.done () (stopAll acts line)).InStep H.shadow (fun _ => H.Lost) (.done () (stopAll acts' (H.line line))) := by
  rcases stopAll_alike hActs hFits with hLost | ⟨hLine, hFits'⟩
  · exact .lost hLost
  · exact .of_done hFits' hLine

theorem await_inStep {acts acts' : List Activity} (hActs : List.Forall₂ (Follows H) acts acts')
    (hFits : H.Fits line) : (await acts line).InStep H.shadow (fun _ => H.Lost) (await acts' (H.line line)) := by
  have hEmpty {acts acts' : List Activity} (hActs : List.Forall₂ (Follows H) acts acts') :
      acts'.isEmpty = acts.isEmpty := by cases hActs <;> rfl
  have hAdvances := await_advances (Follows.advances hActs) line
  rcases settle_lockstep.alike hActs hFits with hLost | ⟨hActs', hLine, hFits'⟩
  · refine .lost (Lost.doomed_state hAdvances ?_)
    rw [state_await]
    exact hLost
  · unfold await at hAdvances ⊢
    dsimp only at hAdvances ⊢
    rw [hEmpty hActs']
    by_cases hDone : (settle acts line).1.isEmpty = true
    · rw [if_pos hDone, if_pos hDone]
      exact .of_done hFits' hLine
    · rw [if_neg hDone] at hAdvances ⊢
      rw [if_neg hDone]
      refine .of_wait hFits' hLine fun signal next hFits => ?_
      have hRest := hAdvances.2 signal next
      have hLook : H.shadow.look next = H.line next := rfl
      rw [hLook]
      rcases (resumeOthers_lockstep signal true).alike hActs' hFits with hLost | ⟨hLeft, hLine', hFits''⟩
      · refine .lost (Lost.doomed_state hRest ?_)
        split <;> exact hLost
      · rw [hEmpty hLeft]
        by_cases hDone' : (resumeOthers signal true (settle acts line).1 next).1.isEmpty = true
        · rw [if_pos hDone', if_pos hDone']
          exact .of_done hFits'' hLine'
        · rw [if_neg hDone', if_neg hDone']
          exact .of_wait hFits'' hLine' fun _ last hFits => stopAll_inStep hLeft hFits

theorem drive_inStep {r r' : Run Line Unit} (h : r.InStep H.shadow (fun _ => H.Lost) r')
    (hAdvances : r.Advances Line.Later line) {acts acts' : List Activity}
    (hActs : List.Forall₂ (Follows H) acts acts') :
    (drive acts r).InStep H.shadow (fun _ => H.Lost) (drive acts' r') := by
  induction h generalizing acts acts' line with
  | done hFits => exact await_inStep hActs hFits
  | @wait why state resume resume' hFits hResume ih =>
    refine .of_wait hFits rfl fun signal line hFits => ?_
    have hOthers (idle : Bool) := (resumeOthers_lockstep signal idle).alike hActs hFits
    have hMarches (idle : Bool) := resumeOthers_marches signal idle acts line (Follows.advances hActs)
    have hNext (idle : Bool) :
        (drive (resumeOthers signal idle acts line).1 (resume signal (resumeOthers signal idle acts line).2)).InStep
          H.shadow (fun _ => H.Lost)
          (drive (resumeOthers signal idle acts' (H.line line)).1
            (resume' signal (resumeOthers signal idle acts' (H.line line)).2)) := by
      rcases hOthers idle with hLost | ⟨hLeft, hLine, hFits'⟩
      · exact .lost (Lost.doomed (drive_advances (hMarches idle).1 (hAdvances.2 signal _)) hLost)
      · rw [hLine]
        exact ih signal _ hFits' (hAdvances.2 signal _) hLeft
    exact hNext _
  | @lost r r' h =>
    -- The last stage has lost step, so the pipeline has when it first waits or ends.
    have hState : H.Lost (drive acts r).state := by
      cases r with
      | done result state =>
        have hLater := (settle_marches acts state (Follows.advances hActs)).2
        rw [drive, state_await]
        exact Lost.later h hLater
      | wait why state resume => exact h.1
    exact .lost (Lost.doomed_state (drive_advances (Follows.advances hActs) hAdvances) hState)

theorem launchAll_alike {commands : List Command} {index : Nat}
    (hHeedless : v.Heedless nested H.key output index commands line) {running running' : List Activity}
    (hRunning : List.Forall₂ (Follows H) running running') (hFits : H.Fits line) :
    AlikeLaunched H (v.launchAll nested output index running commands line)
      (v.launchAll nested output index running' commands (H.line line)) := by
  induction commands generalizing index running running' line with
  | nil => exact .complete hRunning (fun line hFits => .of_done hFits rfl) hFits
  | cons c rest ih =>
    obtain ⟨hIgnores, hRest⟩ := hHeedless
    have hLine := launch_line hFits hIgnores
    have hLeft := fits_launch (v := v) (c := c) hFits output index rest.isEmpty
    cases hLaunch : v.launch output index rest.isEmpty c line with
    | mk reply line' =>
      rw [hLaunch] at hLine hLeft
      dsimp only at hLine hLeft
      rw [launchAll_cons, launchAll_cons, hLaunch, hLine]
      cases reply with
      | error fault => exact .aborted hRunning hLeft
      | ok start =>
        have hTask := hIgnores.avoids start line' hLaunch
        have hNext := hRest start line' hLaunch
        have hStart (line : Line) (hFits : H.Fits line) :
            (start.run nested line).InStep H.shadow (fun _ => H.Lost) (start.run nested (H.line line)) :=
          Stage.run_inStep hFits nested hTask start.desk
        dsimp only
        cases hEmpty : rest.isEmpty with
        | true => exact .complete hRunning hStart hLeft
        | false =>
          simp only [Bool.false_eq_true, if_false]
          by_cases hOrder : start.inOrder = true
          · rw [if_pos hOrder] at hNext
            rw [if_pos hOrder, if_pos hOrder]
            -- The stage runs to its end, and may lose step, before the next one is launched.
            rcases (hStart line' hLeft).complete with hLost | ⟨hEndFits, hEnd⟩
            · exact .lost (Lost.later hLost (launchAll_advances hNext (Follows.advances hRunning)).2)
            · rw [hEnd]
              exact ih hNext hRunning hEndFits
          · rw [if_neg hOrder] at hNext
            rw [if_neg hOrder, if_neg hOrder]
            have hFresh : Follows H (.fresh (start.run nested)) (.fresh (start.run nested)) :=
              .fresh (fun line => start.stage.run_advances nested hTask start.desk line) hStart
            exact ih hNext (List.rel_append hRunning (.cons hFresh .nil)) hLeft

theorem runStages_inStep {p : Pipeline} (hHeedless : v.Heedless nested H.key output 0 p.commands line)
    (hFits : H.Fits line) :
    (v.runStages nested output p line).InStep H.shadow (fun fault _ => H.key = pipefailVar ∧ fault ≠ none)
      (v.runStages nested output p (H.line line)) := by
  have hLaunched := launchAll_alike hHeedless .nil hFits
  have hNone : ∀ a ∈ ([] : List Activity), a.Advances := by simp
  obtain ⟨hAdvances, -⟩ := launchAll_advances hHeedless hNone
  have hFails {acts : List Activity} {last : Line → Run Line Unit} {line : Line}
      (h : (Launched.complete acts last).Advances) (hLost : H.Lost (settle acts line).2) :
      ((drive (settle acts line).1 (last (settle acts line).2)).bind
        fun _ line => .done (line.board.verdict.map Failure.toFault) line).Doomed H.Lost
        fun fault _ => H.key = pipefailVar ∧ fault ≠ none := by
    have hDrive := drive_advances (settle_marches acts line h.1).1 (h.2 (settle acts line).2)
    exact (Lost.doomed hDrive hLost).bind fun _ line hLost => ⟨hLost.1, by simpa using hLost.verdict⟩
  unfold runStages
  generalize v.launchAll nested output 0 [] p.commands (H.line line) = second at hLaunched ⊢
  generalize v.launchAll nested output 0 [] p.commands line = first at hLaunched hAdvances ⊢
  cases hLaunched with
  | lost hLost =>
    obtain ⟨launched, line'⟩ := first
    cases launched with
    | aborted fault acts => exact .lost ⟨hLost.1, by simp⟩
    | complete acts last =>
      have hLater := (settle_marches acts line' hAdvances.1).2
      exact .lost (hFails hAdvances (Lost.later hLost hLater))
  | @aborted fault acts acts' line' hActs hFits' =>
    have hCanceled : H.Fits { line' with canceled := true } := hFits'
    have hFault {l : Line} (h : H.Lost l) : H.key = pipefailVar ∧ some fault ≠ none := ⟨h.1, by simp⟩
    dsimp only
    rcases settle_lockstep.alike hActs hCanceled with hLost | ⟨hLeft, hLine, hFits''⟩
    · exact .lost (hFault hLost)
    · rcases stopAll_alike hLeft hFits'' with hLost | ⟨hEnd, hEndFits⟩
      · exact .lost (hFault hLost)
      · rw [← hLine] at hEnd
        exact .of_done hEndFits hEnd
  | @complete acts acts' last last' line' hActs hLast hFits' =>
    dsimp only
    rcases settle_lockstep.alike hActs hFits' with hLost | ⟨hLeft, hLine, hFits''⟩
    · exact .lost (hFails hAdvances hLost)
    · rw [hLine]
      have hDrive := drive_inStep (hLast _ hFits'') (hAdvances.2 _) hLeft
      refine hDrive.bind (fun _ line hFits => ?_) fun _ line hLost => ⟨hLost.1, by simpa using hLost.verdict⟩
      have hSame : (H.line line).board.verdict = line.board.verdict := verdict_board hFits.2
      change Run.InStep _ _ _ (.done ((H.line line).board.verdict.map Failure.toFault) (H.line line))
      rw [hSame]
      exact .of_done hFits rfl

end Hiding

end Pipework
