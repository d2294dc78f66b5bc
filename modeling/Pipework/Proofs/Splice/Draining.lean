import Pipework.Proofs.Splice.Cat
import Pipework.Proofs.Splice.Flowing

/-!
# Pipelines without a race

A stage that leaves early breaks the pipe of the one before it, and what that one still comes to is then a matter of
who takes a turn first. This cannot happen where every stage after the first takes all of its input before it leaves:
in such a pipeline every prompt course is an orderly one.
-/

namespace Pipework

/-- The program takes its input before it ends, whatever it is answered until then. -/
def Program.Drains {α : Type} : Program α → Prop
  | .done _ => False
  | .act action next => action.takes = true ∨ ∀ answer, (next answer).Drains

/-- Every use of the command reads the pipe before it, and takes all of that. -/
def Command.Drains (builtins : String → Option Builtin) (c : Command) : Prop :=
  (∀ r ∈ c.redirections, r.fd ≠ 0) ∧
    ∃ b, builtins (c.args.headD "") = some b ∧ ∀ p : Proc, p.args = c.args → (b.task p).Drains

/-- What the stage is in the middle of takes its input before it ends. -/
def Work.Drains {S : Type} : Work S → Prop
  | .ready program _ => program.Drains
  | @waiting _ action _ next => (Program.act action next).Drains
  | .calling _ _ _ => False

def Pose.Drains : Pose → Prop
  | before program _ => program.Drains
  | @offering action _ next _ => (Program.act action next).Drains

theorem Work.Holds.drains_iff {S : Type} {st : Stage} {work : Work S} {pose : Pose} (h : work.Holds st pose) :
    work.Drains ↔ pose.Drains := by
  cases h <;> rfl

theorem Stage.drains_after {S : Type} (st : Stage) {action : Action}
    {next : action.Answer → Program (Except Fault Unit)} (hNext : ∀ answer, (next answer).Drains)
    {reply : Reply action.Answer} {work : Work S} {line : Line} (h : st.after next reply = (.on work, line)) :
    work.Drains := by
  cases reply with
  | done x line' =>
    obtain ⟨desk, answer⟩ := x
    cases answer with
    | none => cases h
    | some answer =>
      cases h
      exact hNext answer
  | wait why line' resume =>
    cases h
    exact .inr hNext

namespace Wiring

variable {storage : Storage} {dir : String} {w w' : Wiring} {world world' : World}

theorem source_redirect {r : Redirection} (hOutput : r.fd ≠ 0)
    (h : w.redirect storage dir r world = (.ok w', world')) : w'.source = w.source := by
  unfold redirect at h
  rw [if_neg hOutput] at h
  split at h
  · cases h
    unfold point
    split <;> rfl
  · cases h
    unfold point
    split <;> rfl
  · dsimp only at h
    cases hServe : world.serve storage
        (if r.append = true then .append (Path.resolve dir _) else .create (Path.resolve dir _)) with
    | mk reply world'' =>
      rw [hServe] at h
      cases reply with
      | error fault => cases h
      | ok feed =>
        cases h
        unfold point
        split <;> rfl

theorem source_refresh : (w.refresh storage world).source = w.source := by
  unfold refresh
  split
  · split
    · rfl
    · split <;> rfl
  · rfl

theorem source_redirectAll {rs : List Redirection} (hOutputs : ∀ r ∈ rs, r.fd ≠ 0)
    (h : w.redirectAll storage dir rs world = (.ok w', world')) : w'.source = w.source := by
  induction rs generalizing w world with
  | nil =>
    cases h
    exact source_refresh
  | cons r rs ih =>
    obtain ⟨hFirst, hRest⟩ := List.forall_mem_cons.mp hOutputs
    unfold redirectAll at h
    split at h
    · next wiring world'' hRedirect => exact (ih hRest h).trans (source_redirect hFirst hRedirect)
    · cases h

end Wiring

theorem Invoker.launch_drains {v : Invoker} {output : Output} {index : Nat} {isLast : Bool} {c : Command}
    {line line' : Line} {start : Launch} (h : v.launch output index isLast c line = (.ok start, line'))
    (hIndex : index ≠ 0) (hDrains : c.Drains line.world.builtin?) :
    start.stage.source = .pipe ∧ start.task.Drains := by
  obtain ⟨hOutputs, b, hBuiltin, hTask⟩ := hDrains
  unfold launch at h
  dsimp only at h
  rw [hBuiltin] at h
  dsimp only at h
  split at h
  · cases h
  · next w world hRedirect =>
    cases h
    refine ⟨?_, hTask _ rfl⟩
    rw [Wiring.source_redirectAll hOutputs hRedirect]
    exact if_neg hIndex

namespace Crew

/-- Each stage after the first has its input before it for as long as the stage before it is at work. -/
structure Draining {S : Type} (builtins : String → Option Builtin) (crew : Crew S) : Prop where
  pending : ∀ c ∈ crew.pending.drop (1 - crew.launched), c.Drains builtins
  workers : ∀ w ∈ crew.workers, w.stage.index ≠ 0 → ¬crew.Left (w.stage.index - 1) →
    w.stage.source = .pipe ∧ w.work.Drains

variable {S : Type} {n : Nat} {site : (String → Option Builtin) × Bool} {crew crew' : Crew S}
  {before after : List (Worker S)} {w : Worker S} {pose : Pose}

theorem Draining.of_workers (h : crew.Draining site.1) (hPending : crew'.pending = crew.pending)
    (hLaunched : crew'.launched = crew.launched) (hLeft : ∀ j, crew.Left j → crew'.Left j)
    (hWorkers : ∀ u ∈ crew'.workers, u ∈ crew.workers ∨
      (u.stage.index ≠ 0 → ¬crew.Left (u.stage.index - 1) → u.stage.source = .pipe ∧ u.work.Drains)) :
    crew'.Draining site.1 where
  pending := by
    rw [hPending, hLaunched]
    exact h.pending
  workers u hu hIndex hOpen := by
    have hOpen' : ¬crew.Left (u.stage.index - 1) := mt (hLeft _) hOpen
    rcases hWorkers u hu with hOld | hNew
    · exact h.workers u hOld hIndex hOpen'
    · exact hNew hIndex hOpen'

namespace Draining

theorem on (h : crew.Draining site.1) (hWorkers : crew.workers = before ++ w :: after) {work : Work S} {line : Line}
    (hWork : w.stage.index ≠ 0 → ¬crew.Left (w.stage.index - 1) → w.stage.source = .pipe ∧ work.Drains) :
    Draining site.1 { crew with line := line, workers := before ++ { w with work := work } :: after } := by
  refine h.of_workers rfl rfl (fun j hLeft => ?_) fun u hu => ?_
  · simpa [Left, indices, hWorkers] using hLeft
  · rcases List.mem_append.mp hu with hu | hu
    · exact .inl (hWorkers ▸ List.mem_append_left _ hu)
    · rcases List.mem_cons.mp hu with rfl | hu
      · exact .inr hWork
      · exact .inl (hWorkers ▸ List.mem_append_right _ (List.mem_cons_of_mem _ hu))

theorem turned (h : crew.Draining site.1) (hFlowing : crew.Flowing n site)
    (hWorkers : crew.workers = before ++ w :: after) (hHolds : w.work.Holds w.stage pose) (hPlain : pose.IsPlain)
    (signal : Signal) (hInput : pose.Reads w.stage → ∃ data, crew.line.pipe (w.stage.index - 1) = .ofBytes data) :
    Draining site.1 (crew.turned before after w (pose.next w.stage signal crew.line)) := by
  have hw := Flowing.mem hWorkers
  -- A stage that is yet to take its input does not do so before the stage before it has left.
  have hAhead (hIndex : w.stage.index ≠ 0) (hOpen : ¬crew.Left (w.stage.index - 1)) :
      w.stage.source = .pipe ∧ pose.Drains ∧ ¬pose.Reads w.stage := by
    obtain ⟨hSource, hDrains⟩ := h.workers w hw hIndex hOpen
    exact ⟨hSource, hHolds.drains_iff.mp hDrains, mt (hFlowing.left_of_reads hw hInput) hOpen⟩
  cases hNext : pose.next (S := S) w.stage signal crew.line with
  | mk turn line =>
    cases turn with
    | ended result =>
      have hSub : (before ++ after).Sublist crew.workers :=
        hWorkers ▸ List.Sublist.append_left (List.sublist_cons_self _ _) _
      refine h.of_workers rfl rfl (fun j hLeft => ⟨hLeft.1, mt (fun hj => ?_) hLeft.2⟩) fun u hu => .inl ?_
      · exact (hSub.map (·.stage.index)).subset hj
      · exact hSub.subset hu
    | on work =>
      refine h.on hWorkers fun hIndex hOpen => ?_
      obtain ⟨hSource, hDrains, hReads⟩ := hAhead hIndex hOpen
      refine ⟨hSource, ?_⟩
      cases pose with
      | before program desk =>
        cases program with
        | done result => exact hDrains.elim
        | act action next =>
          have hRest : ∀ answer, (next answer).Drains := hDrains.resolve_left fun hTakes => hReads ⟨hSource, hTakes⟩
          exact w.stage.drains_after hRest hNext
      | offering answer next desk =>
        have hRest : ∀ answer, (next answer).Drains := hDrains.resolve_left fun hTakes => hReads ⟨hSource, hTakes⟩
        cases hNext
        exact hRest _

end Draining

section Orders

variable {v : Invoker} {output : Output} {C : Calls} {mayCall stops : Prop} {crew crew' : Crew C.State}

theorem Draining.launch (h : crew.Draining site.1) (hFlowing : crew.Flowing n site) {c : Command} {rest : List Command}
    {start : Launch} {line : Line} (hPending : crew.pending = c :: rest)
    (hLaunch : v.launch output crew.launched rest.isEmpty c crew.line = (.ok start, line)) :
    Draining site.1
      { crew with
        line := line
        pending := rest
        launched := crew.launched + 1
        workers := crew.workers ++ [start.worker] } := by
  obtain ⟨hIndex, -⟩ := v.stage_launch output crew.launched rest.isEmpty c crew.line (by rw [hLaunch])
  have hDrains := h.pending
  rw [hPending] at hDrains
  constructor
  · intro d hd
    refine hDrains d ?_
    have hRest : d ∈ rest := by simpa using hd
    cases hFirst : crew.launched with
    | zero => exact hRest
    | succ k => simpa using .inr hRest
  · intro u hu hNotFirst hOpen
    rcases List.mem_append.mp hu with hu | hu
    · refine h.workers u hu hNotFirst fun hLeft => hOpen ⟨Nat.lt_succ_of_lt hLeft.1, ?_⟩
      have hEarly := hLeft.1
      simpa [indices, Launch.worker, hIndex, Nat.ne_of_lt hEarly] using hLeft.2
    · obtain rfl := List.mem_singleton.mp hu
      have hLater : crew.launched ≠ 0 := hIndex ▸ hNotFirst
      refine Invoker.launch_drains hLaunch hLater ?_
      rw [show crew.line.world.builtin? = site.1 from congrArg Prod.fst hFlowing.line.site]
      refine hDrains c ?_
      rw [show 1 - crew.launched = 0 by omega]
      exact List.mem_cons_self

/-- A stage leaves only once the stage before it has. -/
theorem Draining.orders (h : crew.Draining site.1) (hFlowing : crew.Flowing n site)
    (hProceeds : Proceeds v output C mayCall stops crew crew') : Orders v output C mayCall stops crew crew' := by
  obtain ⟨event, hStep, hPrompt, hStops⟩ := hProceeds
  refine ⟨event, hStep, hPrompt, ?_, hStops⟩
  cases hStep with
  | @finish before after w result line hWorkers hActs =>
    have hw := Flowing.mem hWorkers
    intro u hu
    by_cases hIndex : w.stage.index = 0
    · rw [hIndex]
      exact Nat.zero_le _
    · have hLeft : crew.Left (w.stage.index - 1) := by
        by_contra hOpen
        obtain ⟨-, hDrains⟩ := h.workers w hw hIndex hOpen
        obtain ⟨pose, hHolds, hPlain⟩ := (hFlowing.workers w hw).pose
        have hDue := hFlowing.isDue hw hHolds hPlain (hPrompt w hw rfl)
        rcases hHolds.acts hPlain (hFlowing.workers w hw).builtin (hFlowing.settles hw) hDue hActs with
          ⟨work, hSame, -⟩ | ⟨signal, -, hInput, hNext⟩
        · cases hSame
        · obtain ⟨result, desk, rfl⟩ := pose.eq_of_isDone (hFlowing.isDone hw hPlain hInput hNext.symm)
          exact hHolds.drains_iff.mp hDrains
      have hLater := hFlowing.inTurn _ hLeft _ (Flowing.index_mem hu)
      omega
  | _ => trivial

theorem Draining.next (h : crew.Draining site.1) (hFlowing : crew.Flowing n site)
    (hOrders : Orders v output C mayCall stops crew crew') : crew'.Draining site.1 := by
  cases hFlowing.goes hOrders with
  | launch hPending hRefusal hOrder hLaunch => exact h.launch hFlowing hPending hLaunch
  | refuse hPending hRefusal hOrder hLaunch => exact h.of_workers rfl rfl (fun _ => id) fun _ hu => .inl hu
  | stop hStops => exact h.of_workers rfl rfl (fun _ => id) fun _ hu => .inl hu
  | @turn before after w _ hWorkers hTurns =>
    have hw := Flowing.mem hWorkers
    obtain ⟨pose, hHolds, hPlain⟩ := (hFlowing.workers w hw).pose
    cases hTurns hHolds hPlain with
    | linger hHolds' =>
      refine h.on hWorkers fun hIndex hOpen => ?_
      obtain ⟨hSource, hDrains⟩ := h.workers w hw hIndex hOpen
      exact ⟨hSource, hHolds'.drains_iff.mpr (hHolds.drains_iff.mp hDrains)⟩
    | move signal hStop hInput hOutlasts => exact h.turned hFlowing hWorkers hHolds hPlain signal hInput

theorem Draining.orderly (h : crew.Draining site.1) (hFlowing : crew.Flowing n site)
    (hCourse : Relation.ReflTransGen (Proceeds v output C mayCall stops) crew crew') :
    Orderly v output C mayCall stops crew crew' := by
  suffices hAll : Orderly v output C mayCall stops crew crew' ∧ crew'.Flowing n site ∧ crew'.Draining site.1 from hAll.1
  induction hCourse with
  | refl => exact ⟨.refl, hFlowing, h⟩
  | tail hCourse hLast ih =>
    obtain ⟨hOrderly, hFlows, hDraining⟩ := ih
    have hOrders := hDraining.orders hFlows hLast
    exact ⟨hOrderly.tail hOrders, hFlows.next hOrders, hDraining.next hFlows hOrders⟩

end Orders

end Crew

end Pipework
