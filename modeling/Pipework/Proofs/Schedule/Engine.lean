import Pipework.Proofs.Schedule.Follow
import Pipework.Proofs.Schedule.Invocation
import Pipework.Proofs.Stage.Sweep

/-!
# The engine runs pipelines and scripts in one of their orders

The stages that the engine still has to go on with are stages of a crew, and each pass over them is a number of
steps of that crew. So is what happens when the last stage waits, when the pipeline is stopped, and when
stages are left that nothing moves. In the end every script that the engine runs follows one of its courses.
-/

namespace Pipework

open Relation

namespace Crew

variable {v : Invoker} {output : Output} {C : Calls}

theorem Step.canceled {mayCall : Prop} {event : Event} {crew crew' : Crew C.State}
    (h : Step v output C mayCall crew event crew') (hSteady : ∀ w ∈ crew.workers, w.work.Steady) :
    (∀ w ∈ crew'.workers, w.work.Steady) ∧ (crew.line.canceled = true → crew'.line.canceled = true) := by
  cases h with
  | @launch c rest start line hPending hRefusal hOrder hLaunch =>
    have hStatus := v.status_launch output crew.launched rest.isEmpty c crew.line
    rw [hLaunch] at hStatus
    refine ⟨List.forall_mem_append.mpr ⟨hSteady, List.forall_mem_singleton.mpr trivial⟩, fun hCanceled => ?_⟩
    exact (congrArg Line.Status.canceled hStatus).trans hCanceled
  | refuse hPending hRefusal hOrder hLaunch => exact ⟨hSteady, fun _ => rfl⟩
  | @act before after w work line hWorkers hActs =>
    have hMem : w ∈ crew.workers := hWorkers ▸ List.mem_append_right before List.mem_cons_self
    have hOn : work.Steady := hActs.steady (hSteady w hMem)
    refine ⟨?_, hActs.canceled (hSteady w hMem)⟩
    grind
  | @finish before after w result line hWorkers hActs =>
    have hMem : w ∈ crew.workers := hWorkers ▸ List.mem_append_right before List.mem_cons_self
    refine ⟨?_, hActs.canceled (hSteady w hMem)⟩
    grind
  | stop => exact ⟨hSteady, fun _ => rfl⟩

theorem Leads.canceled {crew crew' : Crew C.State} (h : Leads v output C crew crew')
    (hSteady : ∀ w ∈ crew.workers, w.work.Steady) :
    (∀ w ∈ crew'.workers, w.work.Steady) ∧ (crew.line.canceled = true → crew'.line.canceled = true) := by
  induction h with
  | refl => exact ⟨hSteady, id⟩
  | tail _ hStep ih =>
    obtain ⟨event, hStep⟩ := hStep
    obtain ⟨hSteady', hCanceled⟩ := hStep.canceled ih.1
    exact ⟨hSteady', fun h => hCanceled (ih.2 h)⟩

variable (v output C)

/-- Some stages of a pipeline, `ws` on the line `line`, can become `ws'` on the line `line'`, whatever the
others are. -/
def Moves (line : Line) (ws : List (Worker C.State)) (line' : Line) (ws' : List (Worker C.State)) : Prop :=
  ∀ before after pending launched refusal,
    Leads v output C ⟨line, pending, launched, before ++ ws ++ after, refusal⟩
      ⟨line', pending, launched, before ++ ws' ++ after, refusal⟩

variable {v output C}

theorem Moves.refl (line : Line) (ws : List (Worker C.State)) : Moves v output C line ws line ws :=
  fun _ _ _ _ _ => .refl

theorem Moves.trans {line line' line'' : Line} {ws ws' ws'' : List (Worker C.State)}
    (h : Moves v output C line ws line' ws') (h' : Moves v output C line' ws' line'' ws'') :
    Moves v output C line ws line'' ws'' :=
  fun before after pending launched refusal =>
    (h before after pending launched refusal).trans (h' before after pending launched refusal)

theorem Moves.leads {line line' : Line} {ws ws' : List (Worker C.State)} (h : Moves v output C line ws line' ws')
    (pending : List Command) (launched : Nat) (refusal : Option Fault) :
    Leads v output C ⟨line, pending, launched, ws, refusal⟩ ⟨line', pending, launched, ws', refusal⟩ := by
  have hAll := h [] [] pending launched refusal
  rwa [List.append_nil, List.append_nil] at hAll

theorem Moves.append_left {line line' : Line} {ws ws' : List (Worker C.State)}
    (h : Moves v output C line ws line' ws') (us : List (Worker C.State)) :
    Moves v output C line (us ++ ws) line' (us ++ ws') := by
  intro before after pending launched refusal
  simpa using h (before ++ us) after pending launched refusal

theorem Moves.append_right {line line' : Line} {ws ws' : List (Worker C.State)}
    (h : Moves v output C line ws line' ws') (us : List (Worker C.State)) :
    Moves v output C line (ws ++ us) line' (ws' ++ us) := by
  intro before after pending launched refusal
  simpa using h before (us ++ after) pending launched refusal

theorem moves_on {line line' : Line} {w : Worker C.State} {work : Work C.State}
    (h : ReflTransGen (Acts C True w.stage) (.on w.work, line) (.on work, line')) :
    Moves v output C line [w] line' [{ w with work := work }] := by
  intro before after pending launched refusal
  simpa using leads_on h

theorem moves_over {line line' : Line} {w : Worker C.State} {result : Option Failure}
    (h : ReflTransGen (Acts C True w.stage) (.on w.work, line) (.ended result, line')) :
    Moves v output C line [w] line' [] := by
  intro before after pending launched refusal
  simpa using leads_over h

theorem Moves.canceled {line line' : Line} {ws ws' : List (Worker C.State)}
    (h : Moves v output C line ws line' ws') (hSteady : ∀ w ∈ ws, w.work.Steady) (hCanceled : line.canceled = true) :
    line'.canceled = true := by
  exact ((h.leads [] 0 none).canceled hSteady).2 hCanceled

end Crew

namespace Activity

variable {v : Invoker} {output : Output} {C : Calls}

open Crew

variable (C) in
def Tracks (a : Activity) (w : Worker C.State) : Prop :=
  w.work.Steady ∧ match a with
    | .fresh start => ∀ line, (start line).Follows C w.stage (.on w.work, line)
    | .waiting _ resume =>
      ∀ signal line, (signal.isStop = true → line.canceled = true) →
        (resume signal line).Follows C w.stage (.on w.work, line)

variable (v output C) in
/-- Going on with stages by `f` is a number of steps of their crew. -/
def Conducts (f : List Activity → Line → List Activity × Line) : Prop :=
  ∀ acts ws line, List.Forall₂ (Tracks C) acts ws →
    ∃ ws', List.Forall₂ (Tracks C) (f acts line).1 ws' ∧ Moves v output C line ws (f acts line).2 ws'

theorem steady_of_tracks {acts : List Activity} {ws : List (Worker C.State)}
    (h : List.Forall₂ (Tracks C) acts ws) : ∀ w ∈ ws, w.work.Steady := by
  induction h with
  | nil => simp
  | cons hFirst _ ih => exact List.forall_mem_cons.mpr ⟨hFirst.1, ih⟩

variable (v output C) in
/-- Going on with one stage by `f` is a number of steps of that stage. -/
def Plies (f : Activity → Line → Option Activity × Line) : Prop :=
  ∀ {a : Activity} {w : Worker C.State} (line : Line), a.Tracks C w →
    ∃ ws, List.Forall₂ (Tracks C) (f a line).1.toList ws ∧ Moves v output C line [w] (f a line).2 ws

theorem conducts_stepwise : Stepwise (Plies v output C) (Conducts v output C) where
  sweep {f} hf acts ws line hTracks := by
    induction hTracks generalizing line with
    | nil => exact ⟨[], .nil, .refl line []⟩
    | @cons a w acts ws hFirst _ ih =>
      obtain ⟨us, hTracks, hMoves⟩ := hf line hFirst
      obtain ⟨us', hTracks', hMoves'⟩ := ih (f a line).2
      refine ⟨us ++ us', List.rel_append hTracks hTracks', ?_⟩
      exact (hMoves.append_right ws).trans (hMoves'.append_left us)
  keep acts ws line hTracks := ⟨ws, hTracks, .refl line ws⟩
  comp hf hg acts ws line hTracks := by
    obtain ⟨ws', hTracks', hMoves⟩ := hf acts ws line hTracks
    obtain ⟨ws'', hTracks'', hMoves'⟩ := hg _ ws' _ hTracks'
    exact ⟨ws'', hTracks'', hMoves.trans hMoves'⟩
  count hf acts ws line hTracks := hf acts.length acts ws line hTracks

theorem ofRun_moves {r : Run Line Unit} {w : Worker C.State} {line : Line} (hSteady : w.work.Steady)
    (h : r.Follows C w.stage (.on w.work, line)) :
    ∃ ws, List.Forall₂ (Tracks C) (ofRun r).1.toList ws ∧ Moves v output C line [w] (ofRun r).2 ws := by
  cases r with
  | done result line' =>
    obtain ⟨result, hEnd⟩ := h
    exact ⟨[], .nil, moves_over hEnd⟩
  | wait why line' resume =>
    obtain ⟨work, hWait, hResume⟩ := h
    refine ⟨[{ w with work := work }], .cons ⟨?_, hResume⟩ .nil, moves_on hWait⟩
    exact (Acts.canceled_star hWait hSteady).1

theorem proceed_plies : Plies v output C proceed := by
  intro a w line h
  cases a with
  | fresh start => exact ofRun_moves h.1 (h.2 line)
  | waiting why resume =>
    unfold proceed
    dsimp only
    split
    · refine ofRun_moves h.1 (h.2 _ line ?_)
      cases line.canceled <;> simp [Signal.isStop]
    · exact ⟨[w], .cons h .nil, .refl line [w]⟩

theorem lapse_moves {r : Run Line Unit} {w : Worker C.State} {line : Line} (hSteady : w.work.Steady)
    (h : r.Follows C w.stage (.on w.work, line)) :
    ∃ ws, List.Forall₂ (Tracks C) (lapse r).1.toList ws ∧ Moves v output C line [w] (lapse r).2 ws := by
  induction r generalizing w line with
  | done result line' => exact ofRun_moves hSteady h
  | wait why line' resume ih =>
    cases why with
    | stop =>
      obtain ⟨work, hWait, hResume⟩ := h
      have hSteady' := (Acts.canceled_star hWait hSteady).1
      obtain ⟨ws, hTracks, hMoves⟩ := @ih .ready line' { w with work := work } line' hSteady'
        (hResume .ready line' Bool.false_ne_true.elim)
      exact ⟨ws, hTracks, (moves_on hWait).trans hMoves⟩
    | never => exact ofRun_moves hSteady h
    | input i => exact ofRun_moves hSteady h
    | room i => exact ofRun_moves hSteady h
    | offer data endless => exact ofRun_moves hSteady h

theorem tick_plies : Plies v output C tick := by
  intro a w line h
  have hKept : ∃ ws, List.Forall₂ (Tracks C) [a] ws ∧ Moves v output C line [w] line ws :=
    ⟨[w], .cons h .nil, .refl line [w]⟩
  cases a with
  | fresh start => exact hKept
  | waiting why resume =>
    cases why with
    | stop => exact lapse_moves h.1 (h.2 .ready line Bool.false_ne_true.elim)
    | never => exact hKept
    | input i => exact hKept
    | room i => exact hKept
    | offer data endless => exact hKept

variable (v output)

theorem settle_conducts : Conducts v output C settle := conducts_stepwise.settle proceed_plies

theorem outlast_conducts : Conducts v output C outlast := conducts_stepwise.outlast proceed_plies tick_plies

theorem stopAll_moves {acts : List Activity} {ws : List (Worker C.State)} {line : Line}
    (hTracks : List.Forall₂ (Tracks C) acts ws) (hCanceled : line.canceled = true) :
    Moves v output C line ws (stopAll acts line) [] := by
  induction hTracks generalizing line with
  | nil => exact .refl line []
  | @cons a w acts ws hFirst _ ih =>
    have hNext {r : Run Line Unit} (h : r.Follows C w.stage (.on w.work, line)) :
        Moves v output C line (w :: ws) (stopAll acts r.finish.2) [] := by
      obtain ⟨result, hEnd⟩ := h.finish hFirst.1 hCanceled
      have hMoves : Moves v output C line [w] r.finish.2 [] := moves_over hEnd
      have hKept := hMoves.canceled (List.forall_mem_singleton.mpr hFirst.1) hCanceled
      exact (hMoves.append_right ws).trans (ih hKept)
    cases a with
    | fresh start => exact hNext (hFirst.2 line)
    | waiting why resume => exact hNext (hFirst.2 (.stop 0) line fun _ => hCanceled)

end Activity

section Pipelines

variable {v : Invoker} {output : Output} {C : Calls} {nested : Nested}

open Crew Activity

variable (v output C) in
/-- The launch has done what the crew may do from `crew` on, and these are the stages that are left. -/
def Launched.Stems (crew : Crew C.State) : Launched × Line → Prop
  | (.aborted fault acts, line) =>
    ∃ pending launched ws, List.Forall₂ (Tracks C) acts ws ∧
      Leads v output C crew ⟨{ line with canceled := true }, pending, launched, ws, some fault⟩
  | (.complete acts last, line) =>
    ∃ launched ws w, List.Forall₂ (Tracks C) acts ws ∧ Tracks C (.fresh last) w ∧
      Leads v output C crew ⟨line, [], launched, ws ++ [w], none⟩

theorem Launched.Stems.of_leads {crew crew' : Crew C.State} {x : Launched × Line} (h : Stems v output C crew' x)
    (hLeads : Leads v output C crew crew') : Stems v output C crew x := by
  obtain ⟨_ | _, line⟩ := x
  · obtain ⟨pending, launched, ws, hTracks, hRest⟩ := h
    exact ⟨pending, launched, ws, hTracks, hLeads.trans hRest⟩
  · obtain ⟨launched, ws, w, hTracks, hLast, hRest⟩ := h
    exact ⟨launched, ws, w, hTracks, hLast, hLeads.trans hRest⟩

theorem Launch.tracks (hNested : nested.Performs C) (start : Launch) :
    Tracks C (.fresh (start.run nested)) start.worker :=
  ⟨trivial, fun line => start.stage.run_follows hNested start.task start.desk line⟩

theorem Invoker.launchAll_stems (hNested : nested.Performs C) {c : Command} {rest : List Command} {index : Nat}
    {running : List Activity} {ws : List (Worker C.State)} {line : Line} (hTracks : List.Forall₂ (Tracks C) running ws)
    (hOrder : ∀ w ∈ ws, w.inOrder = false) :
    Launched.Stems v output C ⟨line, c :: rest, index, ws, none⟩
      (v.launchAll nested output index running (c :: rest) line) := by
  induction rest generalizing c index running ws line with
  | nil =>
    rw [launchAll_cons]
    split
    · next fault line' hLaunch =>
      exact ⟨_, _, ws, hTracks, .single ⟨_, .refuse rfl rfl hOrder hLaunch⟩⟩
    · next start line' hLaunch =>
      exact ⟨_, ws, start.worker, hTracks, start.tracks hNested, .single ⟨_, .launch rfl rfl hOrder hLaunch⟩⟩
  | cons c' rest ih =>
    rw [launchAll_cons]
    split
    · next fault line' hLaunch =>
      exact ⟨_, _, ws, hTracks, .single ⟨_, .refuse rfl rfl hOrder hLaunch⟩⟩
    · next start line' hLaunch =>
      have hStep : Leads v output C ⟨line, c :: c' :: rest, index, ws, none⟩
          ⟨line', c' :: rest, index + 1, ws ++ [start.worker], none⟩ :=
        .single ⟨_, .launch rfl rfl hOrder hLaunch⟩
      rw [if_neg (by simp)]
      split
      · obtain ⟨result, hEnd⟩ := ((start.tracks hNested).2 line').complete
        have hRuns : Moves v output C line' [start.worker] (start.run nested line').complete.2 [] := moves_over hEnd
        have hOver := hRuns ws [] (c' :: rest) (index + 1) none
        simp only [List.append_nil] at hOver
        exact (ih hTracks hOrder).of_leads (hStep.trans hOver)
      · next hInOrder =>
        refine (ih ?_ ?_).of_leads hStep
        · exact List.rel_append hTracks (.cons (start.tracks hNested) .nil)
        · exact List.forall_mem_append.mpr ⟨hOrder, List.forall_mem_singleton.mpr (eq_false_of_ne_true hInOrder)⟩

variable (v output C) in
/-- The run does what the crew may do from `crew` on, also if it is stopped, and ends as `Q` says. -/
def Run.Conducts {α : Type} (Q : α → Crew C.State → Prop) : Run Line α → Crew C.State → Prop
  | .done result line, crew => ∃ crew', Leads v output C crew crew' ∧ crew'.line = line ∧ Q result crew'
  | .wait _ line resume, crew =>
    ∃ crew', Leads v output C crew crew' ∧ crew'.line = line ∧
      ∀ signal world, (resume signal { line with world := world, stopped := line.stopped || signal.isStop }).Conducts Q
        (crew'.within world)

theorem Run.Conducts.of_leads {α : Type} {Q : α → Crew C.State → Prop} {r : Run Line α} {crew crew' : Crew C.State}
    (h : r.Conducts v output C Q crew') (hLeads : Leads v output C crew crew') : r.Conducts v output C Q crew := by
  cases r with
  | done result line =>
    obtain ⟨last, hLast, hRest⟩ := h
    exact ⟨last, hLeads.trans hLast, hRest⟩
  | wait why line resume =>
    obtain ⟨last, hLast, hRest⟩ := h
    exact ⟨last, hLeads.trans hLast, hRest⟩

theorem Run.Conducts.complete {α : Type} {Q : α → Crew C.State → Prop} {r : Run Line α} {crew : Crew C.State}
    (h : r.Conducts v output C Q crew) :
    ∃ crew', Leads v output C crew crew' ∧ crew'.line = r.complete.2 ∧ Q r.complete.1 crew' := by
  induction r generalizing crew with
  | done result line => exact h
  | wait why line resume ih =>
    obtain ⟨crew', hLeads, rfl, hResume⟩ := h
    have hNext := hResume .ready crew'.line.world
    simp only [Signal.isStop, Bool.or_false] at hNext
    obtain ⟨last, hLast, hEnd⟩ := ih .ready crew'.line hNext
    exact ⟨last, hLeads.trans hLast, hEnd⟩

namespace Invoker

/-- When a wait is over, the other stages go on. If the invocation was stopped, so is the pipeline from then
on. -/
theorem resumeOthers_leads {acts : List Activity} {ws : List (Worker C.State)}
    (hTracks : List.Forall₂ (Tracks C) acts ws) (signal : Signal) (idle : Bool) {line line' : Line} (world : World)
    (hLine : line' = { line with world := world, stopped := line.stopped || signal.isStop })
    (after : List (Worker C.State)) (pending : List Command) (launched : Nat) (refusal : Option Fault) :
    ∃ ws', List.Forall₂ (Tracks C) (resumeOthers signal idle acts line').1 ws' ∧
      Leads v output C ⟨{ line with world := world }, pending, launched, ws ++ after, refusal⟩
        ⟨(resumeOthers signal idle acts line').2, pending, launched, ws' ++ after, refusal⟩ ∧
      (signal.isStop = true → (resumeOthers signal idle acts line').2.canceled = true) := by
  cases signal with
  | ready =>
    have hSame : line' = { line with world := world } := by simp [hLine, Signal.isStop]
    rw [hSame]
    cases idle with
    | true =>
      obtain ⟨ws', hTracks', hMoves⟩ := outlast_conducts v output acts ws { line with world := world } hTracks
      exact ⟨ws', hTracks', hMoves [] after pending launched refusal, by simp [Signal.isStop]⟩
    | false => exact ⟨ws, hTracks, .refl, by simp [Signal.isStop]⟩
  | stop taken =>
    obtain ⟨ws', hTracks', hMoves⟩ := settle_conducts v output acts ws line'.stop hTracks
    have hStop : Step v output C True ⟨{ line with world := world }, pending, launched, ws ++ after, refusal⟩ .stopped
        ⟨line'.stop, pending, launched, ws ++ after, refusal⟩ := by
      rw [hLine]
      exact .stop
    exact ⟨ws', hTracks', .head ⟨_, hStop⟩ (hMoves [] after pending launched refusal),
      fun _ => hMoves.canceled (steady_of_tracks hTracks) rfl⟩

def AllOver (crew : Crew C.State) : Prop := crew.workers = [] ∧ crew.pending = [] ∧ crew.refusal = none

theorem eq_nil_of_tracks {acts : List Activity} {ws : List (Worker C.State)}
    (hTracks : List.Forall₂ (Tracks C) acts ws) (hEmpty : acts.isEmpty = true) : ws = [] := by
  rw [List.isEmpty_iff] at hEmpty
  rw [hEmpty] at hTracks
  exact List.forall₂_nil_left_iff.mp hTracks

theorem await_conducts {acts : List Activity} {ws : List (Worker C.State)} (hTracks : List.Forall₂ (Tracks C) acts ws)
    (line : Line) (launched : Nat) :
    (await acts line).Conducts v output C (fun _ => AllOver) ⟨line, [], launched, ws, none⟩ := by
  obtain ⟨ws', hTracks', hMoves⟩ := settle_conducts v output acts ws line hTracks
  have hLeads := hMoves.leads [] launched none
  unfold await
  dsimp only
  split
  · next hEmpty =>
    obtain rfl := eq_nil_of_tracks hTracks' hEmpty
    exact ⟨_, hLeads, rfl, rfl, rfl, rfl⟩
  · refine ⟨_, hLeads, rfl, fun signal world => ?_⟩
    obtain ⟨us, hTracksUs, hResume, -⟩ := resumeOthers_leads hTracks' signal true world rfl [] [] launched none
    simp only [List.append_nil] at hResume
    dsimp only
    split
    · next hEmpty =>
      obtain rfl := eq_nil_of_tracks hTracksUs hEmpty
      exact ⟨_, hResume, rfl, rfl, rfl, rfl⟩
    · refine ⟨_, hResume, rfl, fun signal' world' => ?_⟩
      have hStops (line : Line) : Moves v output C line.stop us (stopAll _ line.stop) [] :=
        stopAll_moves v output hTracksUs rfl
      exact ⟨_, .head ⟨_, .stop⟩ ((hStops _).leads [] launched none), rfl, rfl, rfl, rfl⟩

theorem drive_conducts {r : Run Line Unit} {acts : List Activity} {ws : List (Worker C.State)} {w : Worker C.State}
    {line : Line} (hTracks : List.Forall₂ (Tracks C) acts ws) (hSteady : w.work.Steady)
    (hLast : r.Follows C w.stage (.on w.work, line)) (launched : Nat) :
    (drive acts r).Conducts v output C (fun _ => AllOver) ⟨line, [], launched, ws ++ [w], none⟩ := by
  induction r generalizing acts ws w line with
  | done result line' =>
    obtain ⟨result, hEnd⟩ := hLast
    have hOver : Leads v output C ⟨line, [], launched, ws ++ [w], none⟩ ⟨line', [], launched, ws ++ [], none⟩ :=
      leads_over hEnd
    rw [List.append_nil] at hOver
    exact (await_conducts hTracks line' launched).of_leads hOver
  | wait why line' resume ih =>
    obtain ⟨work, hWait, hResume⟩ := hLast
    have hOn : Leads v output C ⟨line, [], launched, ws ++ [w], none⟩
        ⟨line', [], launched, ws ++ [{ w with work := work }], none⟩ := leads_on hWait
    have hSteady' := (Acts.canceled_star hWait hSteady).1
    refine ⟨_, hOn, rfl, fun signal world => ?_⟩
    have hNext (idle : Bool) {line'' : Line}
        (hLine : line'' = { line' with world := world, stopped := line'.stopped || signal.isStop }) :
        (drive (resumeOthers signal idle acts line'').1
          (resume signal (resumeOthers signal idle acts line'').2)).Conducts v output C (fun _ => AllOver)
          ⟨{ line' with world := world }, [], launched, ws ++ [{ w with work := work }], none⟩ := by
      obtain ⟨us, hTracksUs, hOthers, hStop⟩ :=
        resumeOthers_leads hTracks signal idle world hLine [{ w with work := work }] [] launched none
      exact (@ih signal _ _ us { w with work := work } _ hTracksUs hSteady' (hResume signal _ hStop)).of_leads hOthers
    exact hNext _ rfl

def Reports (fault : Option Fault) (crew : Crew C.State) : Prop := crew.IsOver ∧ fault = crew.verdict

theorem AllOver.reports {crew : Crew C.State} (h : AllOver crew) :
    Reports (crew.line.board.verdict.map Failure.toFault) crew := by
  obtain ⟨hWorkers, hPending, hRefusal⟩ := h
  exact ⟨⟨hWorkers, .inl hPending⟩, by simp [verdict, hRefusal]⟩

theorem conducts_verdict {r : Run Line Unit} {crew : Crew C.State}
    (h : r.Conducts v output C (fun _ => AllOver) crew) :
    (r.bind fun _ line => .done (line.board.verdict.map Failure.toFault) line).Conducts v output C Reports crew := by
  induction r generalizing crew with
  | done result line =>
    obtain ⟨crew', hLeads, rfl, hOver⟩ := h
    exact ⟨crew', hLeads, rfl, hOver.reports⟩
  | wait why line resume ih =>
    obtain ⟨crew', hLeads, hLine, hResume⟩ := h
    exact ⟨crew', hLeads, hLine, fun signal world => ih signal _ (hResume signal world)⟩

theorem runStages_conducts (hNested : nested.Performs C) (p : Pipeline) (line : Line) :
    (v.runStages nested output p line).Conducts v output C Reports (.start p.commands line) := by
  unfold runStages
  cases hCommands : p.commands with
  | nil => exact ⟨_, .refl, rfl, ⟨rfl, .inl rfl⟩, rfl⟩
  | cons c rest =>
    have hStems : Launched.Stems v output C (.start (c :: rest) line)
        (v.launchAll nested output 0 [] (c :: rest) line) :=
      launchAll_stems hNested .nil (by simp)
    split
    · next fault acts line' hLaunched =>
      rw [hLaunched] at hStems
      obtain ⟨pending, launched, ws, hTracks, hLeads⟩ := hStems
      let line'' : Line := { line' with canceled := true }
      obtain ⟨ws', hTracks', hSettles⟩ := settle_conducts v output acts ws line'' hTracks
      have hStops := stopAll_moves v output hTracks' (hSettles.canceled (steady_of_tracks hTracks) rfl)
      have hEnds := (hSettles.trans hStops).leads pending launched (some fault)
      exact ⟨_, hLeads.trans hEnds, rfl, ⟨rfl, .inr rfl⟩, rfl⟩
    · next acts last line' hLaunched =>
      rw [hLaunched] at hStems
      obtain ⟨launched, ws, w, hTracks, hLast, hLeads⟩ := hStems
      obtain ⟨ws', hTracks', hSettles⟩ := settle_conducts v output acts ws line' hTracks
      refine (conducts_verdict (drive_conducts hTracks' hLast.1 (hLast.2 _) launched)).of_leads ?_
      exact hLeads.trans (hSettles [] [w] [] launched none)

/-- The engine takes a pipeline through one of its courses and reports what that comes to. -/
theorem runStages_course (hNested : nested.Performs C) (p : Pipeline) (line : Line) :
    ∃ events crew, Course v output C True (.start p.commands line) events crew ∧ crew.IsOver ∧
      crew.line = (v.runStages nested output p line).complete.2 ∧
      crew.verdict = (v.runStages nested output p line).complete.1 := by
  obtain ⟨crew, hLeads, hLine, hOver, hVerdict⟩ := (runStages_conducts hNested p line).complete
  obtain ⟨events, hCourse⟩ := hLeads.course
  exact ⟨events, crew, hCourse, hOver, hLine, hVerdict.symm⟩

end Invoker

end Pipelines

section Scripts

variable {programs : Host.Programs} {C : Calls} {nested : Nested} {v : Invoker}

def Invoker.Phase.invocation (phase : Invoker.Phase) (v : Invoker) (plan : Plan) : Invocation C.State × World :=
  (.between v phase.scope phase.canceled phase.stopped plan, phase.world)

variable (programs C) in
/-- The run does what the script may do from `x` on, also if it is stopped, and ends as `Q` says. -/
def Run.Plays {α : Type} (Q : α → Invoker.Phase → Invocation C.State × World) :
    Run Invoker.Phase α → Invocation C.State × World → Prop
  | .done result phase, x => ReflTransGen (Invocation.Step programs C fun _ => True) x (Q result phase)
  | .wait _ phase resume, x =>
    ∃ call, ReflTransGen (Invocation.Step programs C fun _ => True) x (call, phase.world) ∧
      ∀ signal world, (resume signal
        { phase with
          world := world
          canceled := phase.canceled || signal.isStop
          stopped := phase.stopped || signal.isStop }).Plays Q (call, world)

theorem Run.Plays.of_star {α : Type} {Q : α → Invoker.Phase → Invocation C.State × World} {r : Run Invoker.Phase α}
    {x y : Invocation C.State × World} (h : r.Plays programs C Q y)
    (hStar : ReflTransGen (Invocation.Step programs C fun _ => True) x y) : r.Plays programs C Q x := by
  cases r with
  | done result phase => exact hStar.trans h
  | wait why phase resume =>
    obtain ⟨call, hWait, hResume⟩ := h
    exact ⟨call, hStar.trans hWait, hResume⟩

theorem Run.Plays.bind {α β : Type} {Q : α → Invoker.Phase → Invocation C.State × World}
    {Q' : β → Invoker.Phase → Invocation C.State × World} {r : Run Invoker.Phase α}
    {f : α → Invoker.Phase → Run Invoker.Phase β} {x : Invocation C.State × World} (h : r.Plays programs C Q x)
    (hf : ∀ result phase, (f result phase).Plays programs C Q' (Q result phase)) :
    (r.bind f).Plays programs C Q' x := by
  induction r generalizing x with
  | done result phase => exact (hf result phase).of_star h
  | wait why phase resume ih =>
    obtain ⟨call, hWait, hResume⟩ := h
    exact ⟨call, hWait, fun signal world => ih signal _ (hResume signal world)⟩

namespace Invoker

variable {output : Output} {p : Pipeline} {next : Option Fault → Bytes → Plan}

theorem running_star {canceled : Bool} {w : World} {crew crew' : Crew C.State}
    (h : Crew.Leads v output C (crew.within w) crew') :
    ∃ last, crew' = last.within crew'.line.world ∧
      ReflTransGen (Invocation.Step programs C fun _ => True) (.running v canceled output p next crew, w)
        (.running v canceled output p next last, crew'.line.world) := by
  induction h with
  | refl => exact ⟨crew, rfl, .refl⟩
  | @tail mid crew' _ hStep ih =>
    obtain ⟨event, hStep⟩ := hStep
    obtain ⟨last, hLast, hStar⟩ := ih
    rw [hLast] at hStep
    exact ⟨crew', rfl, hStar.tail (.run hStep)⟩

theorem within_plays {phase : Phase} {r : Run Line (Option Fault)} {w : World} {crew : Crew C.State}
    (h : r.Conducts v output C Reports (crew.within w)) :
    ((r.within (closeLine phase) fun phase signal line =>
      { line with
        world := phase.world
        scope := phase.scope
        stopped := line.stopped || signal.isStop }).bind
      fun (fault, line) _ => .done (fault, line.captured) (closeLine phase line)).Plays programs C
        (fun result phase => phase.invocation v (next result.1 result.2))
        (.running v phase.canceled output p next crew, w) := by
  induction r generalizing w crew with
  | done fault line =>
    obtain ⟨crew', hLeads, rfl, hOver, rfl⟩ := h
    obtain ⟨last, hLast, hStar⟩ := running_star hLeads
    rw [hLast] at hOver ⊢
    exact hStar.tail (.conclude hOver)
  | wait why line resume ih =>
    obtain ⟨crew', hLeads, rfl, hResume⟩ := h
    obtain ⟨last, hLast, hStar⟩ := running_star hLeads
    refine ⟨_, hStar, fun signal world => ?_⟩
    have hNext := hResume signal world
    rw [hLast] at hNext ⊢
    exact ih signal _ hNext

theorem runPipeline_plays (hNested : nested.Performs C) (phase : Phase) :
    (v.runPipeline nested output p phase).Plays programs C
      (fun result phase => phase.invocation v (next result.1 result.2))
      (phase.invocation v (.attempt output p next)) := by
  have hStages : (v.runStages nested output p _).Conducts v output C Reports
      (.start p.commands (v.openLine p { phase with world := v.traced p phase.world })) :=
    runStages_conducts hNested p _
  exact (within_plays hStages).of_star (.single .take)

end Invoker

theorem Plan.run_plays (hNested : nested.Performs C) (plan : Plan) (phase : Invoker.Phase) :
    (plan.run v nested phase).Plays programs C (fun result phase => phase.invocation v (.done result))
      (phase.invocation v plan) := by
  induction plan generalizing phase with
  | done result => exact .refl
  | attempt output p next ih =>
    exact (Invoker.runPipeline_plays hNested phase).bind fun result phase => ih result.1 result.2 phase

theorem Run.Plays.performs {r : Run Invoker.Phase (Except Fault Bytes)} {x : Invocation C.State × World}
    (h : r.Plays programs C (fun result phase => phase.invocation v (.done result)) x) :
    (((r.bind fun result phase =>
      .done (result.map capturedText)
        { phase with
          world := phase.world.setOverlay v.overlay (phase.scope.restore (phase.world.overlay v.overlay)).2
          scope := (phase.scope.restore (phase.world.overlay v.overlay)).1 }).within
      Invoker.Phase.world fun world signal phase =>
        { phase with
          world := world
          canceled := phase.canceled || signal.isStop
          stopped := phase.stopped || signal.isStop }).bind fun (result, _) w => .done result w).Performs
      (invocations programs C fun _ => True) x := by
  induction r generalizing x with
  | done result phase => exact ⟨_, h.tail .leave, rfl⟩
  | wait why phase resume ih =>
    obtain ⟨call, hWait, hResume⟩ := h
    exact ⟨call, hWait, fun signal world => ih signal _ (hResume signal world)⟩

theorem executeWith_performs (hNested : nested.Performs C) (context : Context) (m : Mode) (script : Script)
    (w : World) :
    (executeWith nested programs context m script w).Performs (invocations programs C fun _ => True)
      (.fresh context m script, w) := by
  unfold executeWith
  dsimp only
  rw [Invoker.runStatements_eq_run]
  refine Run.Plays.performs ((Plan.run_plays hNested _ _).of_star ?_)
  exact .single .enter

theorem nestedRun_performs (depth : Nat) :
    (nestedRun programs depth).Performs (calls programs (fun _ => True) depth) := by
  induction depth with
  | zero => exact fun _ _ _ _ w => ⟨(), .refl, rfl⟩
  | succ depth ih =>
    intro context file line text w
    dsimp only [nestedRun, calls, invocations]
    cases Script.parse ⟨context.symbols, file, line⟩ text with
    | error mistake => exact ⟨_, .refl, rfl⟩
    | ok script => exact executeWith_performs ih context .capture script w

/-- Whatever the surroundings of a script do while it waits, the engine runs it in one of the orders in which
its stages may act. -/
theorem Script.execute_performs (context : Context) (m : Mode) (script : Script) (w : World) :
    (script.execute programs context m w).Performs
      (invocations programs (calls programs (fun _ => True) maxDepth) fun _ => True) (.fresh context m script, w) :=
  executeWith_performs (nestedRun_performs maxDepth) context m script w

end Scripts

end Pipework
