import Mathlib.Logic.Relation
import Pipework.Proofs.Schedule.Invocation
import Pipework.Proofs.Schedule.Steady

/-!
# Scripts leave their overlay as they found it

At any time during a script it is known what the variables would be if all that it has changed were undone:
its scope says so, after the scripts that its stages run have undone what they changed. No step changes that,
and in the end there is nothing to undo.
-/

namespace Pipework

/-- What an overlay holds for each variable. -/
abbrev Variables := String → Option String

def World.variablesOf (w : World) (id : Nat) : Variables := fun key => (w.overlay id).find? key

namespace Scope

/-- The variables `vars` after the scope has been restored. -/
def undo (s : Scope) (vars : Variables) : Variables := fun key => (s.prior? key).getD (vars key)

@[simp] theorem undo_opened (vars : Variables) : opened.undo vars = vars := rfl

theorem undo_assign (s : Scope) (o : Overlay) (key : String) (value : Option String) :
    (s.assign o key value).1.undo (fun k => (s.assign o key value).2.find? k) = s.undo fun k => o.find? k := by
  funext k
  unfold undo assign
  dsimp only
  rw [prior?_save, Table.find?_assign]
  by_cases hk : k = key
  · subst hk
    cases s.prior? k <;> simp
  · simp [hk]

theorem undo_restore (s : Scope) (o : Overlay) :
    (fun k => (s.restore o).2.find? k) = s.undo fun k => o.find? k :=
  funext fun k => s.find?_restore o k

end Scope

theorem World.variablesOf_setOverlay {w : World} {id : Nat} (hId : id < w.overlays.length) (o : Overlay) :
    (w.setOverlay id o).variablesOf id = fun key => o.find? key := by
  funext key
  simp [variablesOf, overlay, setOverlay, hId]

theorem World.variablesOf_congr {w w' : World} {id : Nat} (h : w'.overlays[id]? = w.overlays[id]?) :
    w'.variablesOf id = w.variablesOf id := by
  funext key
  simp [variablesOf, overlay, List.getD_eq_getElem?_getD, h]

/-- Calls on the overlay `id` whose changes can be undone. -/
structure Calls.Restores (C : Calls) (id : Nat) where
  /-- What the variables will be when the call is over, given what they are. -/
  undo : C.State → Variables → Variables
  Fits : C.State → Prop
  start {context : Context} {file : String} {line : Int} {text : String} (hOverlay : context.overlay = some id) :
    Fits (C.start context file line text) ∧ undo (C.start context file line text) = fun vars => vars
  step {c c' : C.State} {w w' : World} (hFits : Fits c) (hId : id < w.overlays.length)
    (hStep : C.Step (c, w) (c', w')) :
    Fits c' ∧ id < w'.overlays.length ∧ undo c' (w'.variablesOf id) = undo c (w.variablesOf id)
  ended {c : C.State} {result : Except Fault String} (hResult : C.result? c = some result) :
    undo c = fun vars => vars

theorem Calls.Course.undo {C : Calls} {id : Nat} (K : C.Restores id) {x y : C.State × World}
    (h : C.Course (fun w w' => w'.overlays[id]? = w.overlays[id]?) x y) (hFits : K.Fits x.1)
    (hId : id < x.2.overlays.length) :
    K.Fits y.1 ∧ id < y.2.overlays.length ∧ K.undo y.1 (y.2.variablesOf id) = K.undo x.1 (x.2.variablesOf id) := by
  induction h with
  | refl => exact ⟨hFits, hId, rfl⟩
  | tail hSteps hMove ih =>
    obtain ⟨hFits, hId, hUndo⟩ := ih
    rcases hMove with hStep | ⟨hSame, hOutside⟩
    · obtain ⟨hFits', hId', hUndo'⟩ := K.step hFits hId hStep
      exact ⟨hFits', hId', hUndo'.trans hUndo⟩
    · rw [hSame, World.variablesOf_congr hOutside]
      refine ⟨hFits, ?_, hUndo⟩
      rwa [← Nat.not_le, ← List.getElem?_eq_none_iff, hOutside, List.getElem?_eq_none_iff, Nat.not_le]

def Calls.tooDeep.restores (id : Nat) : Calls.tooDeep.Restores id where
  undo _ vars := vars
  Fits _ := True
  start _ := ⟨trivial, rfl⟩
  step _ _ hStep := hStep.elim
  ended _ := rfl

def Work.call? {S : Type} : Work S → Option S
  | .calling call _ _ => some call
  | _ => none

def Turn.call? {S : Type} : Turn S → Option S
  | .on work => work.call?
  | .ended _ => none

section Turns

variable {C : Calls} {id : Nat} (K : C.Restores id)

/-- The variables when all has been undone that the invocation of `line` has changed, while a stage may be in
the middle of the script `call?`. -/
def Line.undone (call? : Option C.State) (line : Line) : Variables :=
  line.scope.undo (call?.elim (fun vars => vars) K.undo (line.world.variablesOf id))

/-- What `line'` has to share with `line` if the variables can be undone after a turn of a stage that was in
the middle of `call?` and now is in the middle of `call'?`. -/
structure Line.Undoes (n : Nat) (call? : Option C.State) (line : Line) (call'? : Option C.State)
    (line' : Line) : Prop where
  undone : line'.undone K call'? = line.undone K call?
  inRange : id < line'.world.overlays.length
  calls : ∀ call ∈ call'?, K.Fits call ∧ n = 1

theorem Line.Undoes.of_frame {n : Nat} {line line' : Line} (hId : id < line.world.overlays.length)
    (hScope : line'.scope = line.scope) (hOverlays : line'.world.overlays = line.world.overlays) :
    Line.Undoes K n none line none line' where
  undone := by
    have hVariables : line'.world.variablesOf id = line.world.variablesOf id :=
      World.variablesOf_congr (by rw [hOverlays])
    unfold Line.undone
    rw [hScope, hVariables]
  inRange := hOverlays ▸ hId
  calls := by simp

namespace Stage

variable (st : Stage) {n : Nat} {line : Line} (hId : id < line.world.overlays.length)

include hId

theorem closed_undoes (fault : Option Fault) (desk : Desk) :
    Line.Undoes K n none line (st.closed (S := C.State) fault desk line).1.call?
      (st.closed (S := C.State) fault desk line).2 :=
  .of_frame K hId rfl (st.overlays_close _ _ _)

theorem after_undoes {action : Action} (next : action.Answer → Program (Except Fault Unit))
    {reply : Reply action.Answer} (h : Run.Leaves Line.frame line.frame reply) :
    Line.Undoes K n none line (st.after (S := C.State) next reply).1.call?
      (st.after (S := C.State) next reply).2 := by
  cases reply with
  | done result line' =>
    obtain ⟨desk, answer⟩ := result
    have hScope : line'.scope = line.scope := congrArg Line.Frame.scope h
    have hOverlays : line'.world.overlays = line.world.overlays := congrArg Line.Frame.overlays h
    cases answer with
    | some answer => exact .of_frame K hId hScope hOverlays
    | none => exact .of_frame K hId hScope ((st.overlays_close _ _ _).trans hOverlays)
  | wait why line' resume =>
    exact .of_frame K hId (congrArg Line.Frame.scope h.1) (congrArg Line.Frame.overlays h.1)

theorem assign_undoes (key value : String) (hOverlay : st.overlay = id) :
    Line.Undoes K n none line none
      { line with
        world := line.world.setOverlay st.overlay
          (line.scope.assign (line.world.overlay st.overlay) key (some value)).2
        scope := (line.scope.assign (line.world.overlay st.overlay) key (some value)).1 } where
  undone := by
    subst hOverlay
    unfold Line.undone
    dsimp only [Option.elim]
    rw [World.variablesOf_setOverlay hId]
    exact line.scope.undo_assign (line.world.overlay st.overlay) key (some value)
  inRange := by simpa [World.setOverlay] using hId
  calls := by simp

end Stage

/-- A stage that works on the overlay `id`, in a pipeline of `n` stages. Only if it is the only stage it runs
scripts. -/
structure Worker.Fits (n : Nat) (w : Worker C.State) : Prop where
  overlay : w.stage.overlay = id
  shared : w.stage.context.overlay = some id
  steady : w.work.Steady
  calls : ∀ call ∈ w.work.call?, K.Fits call ∧ n = 1

theorem Acts.undoes {n : Nat} {w : Worker C.State} {line : Line} {x : Turn C.State × Line}
    (h : Acts C (n = 1) w.stage (.on w.work, line) x) (hFits : w.Fits K n)
    (hId : id < line.world.overlays.length) : Line.Undoes K n w.work.call? line x.1.call? x.2 := by
  obtain ⟨st, inOrder, work⟩ := w
  obtain ⟨hOverlay, hShared, hSteady, hCalls⟩ := hFits
  cases h with
  | @act action next desk _ nested hInvokes =>
    cases hAssigns : action.assigns with
    | false => exact st.after_undoes K hId next (st.perform_leaves nested desk line hInvokes hAssigns)
    | true =>
      cases action with
      | assign key value => exact st.assign_undoes K hId key value hOverlay
      | _ => cases hAssigns
  | @call file number text _ _ _ hCall =>
    have hContext : ({ st.context with canceled := line.canceled } : Context).overlay = some id := hShared
    obtain ⟨hStartFits, hStart⟩ := @Calls.Restores.start C id K _ file number text hContext
    refine ⟨congrArg line.scope.undo (congrFun hStart _), hId, ?_⟩
    rintro _ ⟨rfl⟩
    exact ⟨hStartFits, hCall⟩
  | inner hStep =>
    obtain ⟨hCallFits, hSole⟩ := hCalls _ rfl
    obtain ⟨hStepFits, hInRange, hUndo⟩ := K.step hCallFits hId hStep
    refine ⟨congrArg line.scope.undo hUndo, hInRange, ?_⟩
    rintro _ ⟨rfl⟩
    exact ⟨hStepFits, hSole⟩
  | answer hResult =>
    exact ⟨congrArg line.scope.undo (congrFun (K.ended hResult) _).symm, hId, by rintro _ ⟨⟩⟩
  | resume signal hStop => exact st.after_undoes K hId _ (hSteady signal line)
  | kill hProcess hCanceled => exact st.closed_undoes K hId _ _
  | finish => exact st.closed_undoes K hId _ _

end Turns

namespace Crew

variable {C : Calls} {id : Nat} (K : C.Restores id) {n : Nat}

/-- The script that one of the stages is in the middle of. -/
def call? {S : Type} (crew : Crew S) : Option S := crew.workers.findSome? (·.work.call?)

/-- A crew on the overlay `id`, of a pipeline of `n` stages. -/
structure Fits (n : Nat) (crew : Crew C.State) : Prop where
  workers : ∀ w ∈ crew.workers, w.Fits K n
  count : crew.workers.length + crew.pending.length ≤ n

def undone (crew : Crew C.State) : Variables := crew.line.undone K crew.call?

variable {K} {crew : Crew C.State} (h : crew.Fits K n)

include h

theorem Fits.call?_eq {before after : List (Worker C.State)} {w : Worker C.State}
    (hWorkers : crew.workers = before ++ w :: after) (work : Work C.State) :
    (before ++ { w with work := work } :: after).findSome? (·.work.call?) = work.call? := by
  have hCount := h.count
  have hNone (w' : Worker C.State) (hMem : w' ∈ before ++ after) : w'.work.call? = none := by
    cases hCall : w'.work.call? with
    | none => rfl
    | some call =>
      have hMem' : w' ∈ crew.workers := by grind
      have hSole : n = 1 := ((h.workers w' hMem').calls call hCall).2
      have hLength : 0 < (before ++ after).length := List.length_pos_of_mem hMem
      rw [hWorkers] at hCount
      simp only [List.length_append, List.length_cons] at hCount hLength
      omega
  have hBefore : before.findSome? (·.work.call?) = none :=
    List.findSome?_eq_none_iff.mpr fun w' hw' => hNone w' (List.mem_append_left _ hw')
  have hAfter : after.findSome? (·.work.call?) = none :=
    List.findSome?_eq_none_iff.mpr fun w' hw' => hNone w' (List.mem_append_right _ hw')
  rw [List.findSome?_append, hBefore, Option.none_or, List.findSome?_cons, hAfter]
  cases work.call? <;> rfl

theorem Fits.call?_eq_of_mem {before after : List (Worker C.State)} {w : Worker C.State}
    (hWorkers : crew.workers = before ++ w :: after) : crew.call? = w.work.call? := by
  unfold call?
  rw [hWorkers]
  exact h.call?_eq hWorkers w.work

theorem Fits.call?_of_pending (hPending : crew.pending ≠ []) : crew.call? = none := by
  refine List.findSome?_eq_none_iff.mpr fun w hw => ?_
  cases hCall : w.work.call? with
  | none => rfl
  | some call =>
    have hSole : n = 1 := ((h.workers w hw).calls call hCall).2
    have hCount := h.count
    have hWorkers : 0 < crew.workers.length := List.length_pos_of_mem hw
    have hLength : 0 < crew.pending.length := List.length_pos_iff.mpr hPending
    omega

variable {v : Invoker} {output : Output} (hOverlay : v.overlay = id) (hShared : v.context.overlay = some id)
  (hId : id < crew.line.world.overlays.length)

include hId

include hOverlay hShared in
theorem Fits.launch {c : Command} {rest : List Command} {start : Launch} {line : Line}
    (hPending : crew.pending = c :: rest)
    (hLaunch : v.launch output crew.launched rest.isEmpty c crew.line = (.ok start, line)) :
    Fits K n
        { crew with
          line := line
          pending := rest
          launched := crew.launched + 1
          workers := crew.workers ++ [start.worker] } ∧
      id < line.world.overlays.length ∧
      undone K
        { crew with
          line := line
          pending := rest
          launched := crew.launched + 1
          workers := crew.workers ++ [start.worker] } = crew.undone K := by
  have hFrame := v.frame_launch output crew.launched rest.isEmpty c crew.line
  obtain ⟨-, -, -, hStageOverlay, hContext⟩ :=
    v.stage_launch output crew.launched rest.isEmpty c crew.line (by rw [hLaunch])
  rw [hLaunch] at hFrame
  have hNone : crew.call? = none := h.call?_of_pending (by simp [hPending])
  have hUndoes : Line.Undoes K n none crew.line none line :=
    .of_frame K hId (congrArg Line.Frame.scope hFrame) (congrArg Line.Frame.overlays hFrame)
  have hCount := h.count
  refine ⟨⟨?_, ?_⟩, hUndoes.inRange, ?_⟩
  · refine List.forall_mem_append.mpr ⟨h.workers, List.forall_mem_singleton.mpr ?_⟩
    exact ⟨hStageOverlay.trans hOverlay, (congrArg Context.overlay hContext).trans hShared, trivial, by rintro _ ⟨⟩⟩
  · simp only [hPending, List.length_cons, List.length_append, List.length_nil] at hCount ⊢
    omega
  · have hAfter : (crew.workers ++ [start.worker]).findSome? (fun w : Worker C.State => w.work.call?) = none := by
      rw [List.findSome?_append]
      exact congrArg (Option.or · none) hNone
    unfold undone
    rw [hNone, ← hUndoes.undone]
    exact congrArg (line.undone K) hAfter

theorem Fits.refuse {c : Command} {isLast : Bool} {fault : Fault} {line : Line}
    (hLaunch : v.launch output crew.launched isLast c crew.line = (.error fault, line)) (hPending : crew.pending ≠ []) :
    Fits K n { crew with line := { line with canceled := true }, refusal := some fault } ∧
      id < line.world.overlays.length ∧
      undone K { crew with line := { line with canceled := true }, refusal := some fault } = crew.undone K := by
  have hFrame := v.frame_launch output crew.launched isLast c crew.line
  rw [hLaunch] at hFrame
  have hUndoes : Line.Undoes K n none crew.line none line :=
    .of_frame K hId (congrArg Line.Frame.scope hFrame) (congrArg Line.Frame.overlays hFrame)
  have hNone : crew.call? = none := h.call?_of_pending hPending
  refine ⟨⟨h.workers, h.count⟩, hUndoes.inRange, ?_⟩
  have hSame : line.undone K crew.call? = crew.line.undone K crew.call? := by
    rw [hNone]
    exact hUndoes.undone
  exact hSame

theorem Fits.act {before after : List (Worker C.State)} {w : Worker C.State} {work : Work C.State} {line : Line}
    (hWorkers : crew.workers = before ++ w :: after)
    (hActs : Acts C (n = 1) w.stage (.on w.work, crew.line) (.on work, line)) :
    Fits K n { crew with line := line, workers := before ++ { w with work := work } :: after } ∧
      id < line.world.overlays.length ∧
      undone K { crew with line := line, workers := before ++ { w with work := work } :: after } =
        crew.undone K := by
  have hMem : w ∈ crew.workers := hWorkers ▸ List.mem_append_right before List.mem_cons_self
  have hWorker := h.workers w hMem
  have hUndoes := hActs.undoes K hWorker hId
  refine ⟨⟨?_, ?_⟩, hUndoes.inRange, ?_⟩
  · have hAll := h.workers
    have hNew : Worker.Fits K n { w with work := work } :=
      ⟨hWorker.overlay, hWorker.shared, hActs.steady hWorker.steady, hUndoes.calls⟩
    grind
  · simpa [hWorkers] using h.count
  · have hAfter := h.call?_eq hWorkers work
    unfold undone
    rw [h.call?_eq_of_mem hWorkers, ← hUndoes.undone]
    exact congrArg (line.undone K) hAfter

theorem Fits.finish {before after : List (Worker C.State)} {w : Worker C.State} {result : Option Failure}
    {line : Line} (hWorkers : crew.workers = before ++ w :: after)
    (hActs : Acts C (n = 1) w.stage (.on w.work, crew.line) (.ended result, line)) :
    Fits K n { crew with line := line, workers := before ++ after } ∧
      id < line.world.overlays.length ∧
      undone K { crew with line := line, workers := before ++ after } = crew.undone K := by
  have hMem : w ∈ crew.workers := hWorkers ▸ List.mem_append_right before List.mem_cons_self
  have hUndoes := hActs.undoes K (h.workers w hMem) hId
  refine ⟨⟨?_, ?_⟩, hUndoes.inRange, ?_⟩
  · have hAll := h.workers
    grind
  · have hCount := h.count
    simp only [hWorkers, List.length_append, List.length_cons] at hCount ⊢
    omega
  · -- With the stage that ended gone, no stage is in the middle of a script.
    have hAfter : (before ++ after).findSome? (·.work.call?) = none := by
      have hReady := h.call?_eq hWorkers (.ready (.done (.ok ())) ⟨.nothing, [], []⟩)
      simp only [List.findSome?_append, List.findSome?_cons, Work.call?] at hReady ⊢
      exact hReady
    unfold undone
    rw [h.call?_eq_of_mem hWorkers, ← hUndoes.undone]
    exact congrArg (line.undone K) hAfter

include hOverlay hShared in
theorem Fits.step {event : Event} {crew' : Crew C.State} (hStep : Step v output C (n = 1) crew event crew') :
    crew'.Fits K n ∧ id < crew'.line.world.overlays.length ∧ crew'.undone K = crew.undone K := by
  cases hStep with
  | launch hPending hRefusal hOrder hLaunch => exact h.launch hOverlay hShared hId hPending hLaunch
  | refuse hPending hRefusal hOrder hLaunch => exact h.refuse hId hLaunch (by simp [hPending])
  | act hWorkers hActs => exact h.act hId hWorkers hActs
  | finish hWorkers hActs => exact h.finish hId hWorkers hActs
  | stop => exact ⟨⟨h.workers, h.count⟩, hId, rfl⟩

end Crew

namespace Invocation

variable {C : Calls} {id : Nat} (K : C.Restores id)

/-- What the variables will be when the script is over, given what they are. -/
def undo : Invocation C.State → Variables → Variables
  | .between _ scope _ _ _, vars => scope.undo vars
  | .running _ _ _ _ _ crew, vars => crew.line.scope.undo (crew.call?.elim (fun vars => vars) K.undo vars)
  | _, vars => vars

def Fits : Invocation C.State → Prop
  | .fresh context _ _ => context.overlay = some id
  | .between v _ _ _ _ => v.overlay = id ∧ v.context.overlay = some id
  | .running v _ _ p _ crew => v.overlay = id ∧ v.context.overlay = some id ∧ crew.Fits K p.commands.length
  | .ended _ => True

variable {K} {programs : Host.Programs}

theorem Fits.step {c c' : Invocation C.State} {w w' : World} (h : c.Fits K) (hId : id < w.overlays.length)
    (hStep : Step programs C (· = 1) (c, w) (c', w')) :
    c'.Fits K ∧ id < w'.overlays.length ∧ c'.undo K (w'.variablesOf id) = c.undo K (w.variablesOf id) := by
  cases hStep with
  | @enter context m script _ =>
    have hOverlay : context.overlay = some id := h
    have hEnter : context.enter w = (id, w) := by simp [Context.enter, hOverlay]
    rw [hEnter]
    exact ⟨⟨rfl, hOverlay⟩, hId, rfl⟩
  | @take v scope canceled stopped output p next _ =>
    obtain ⟨hOverlay, hShared⟩ := h
    have hTraced : (v.traced p w).overlays = w.overlays := v.overlays_traced p w
    refine ⟨⟨hOverlay, hShared, by simp [Crew.start], by simp [Crew.start]⟩, hTraced ▸ hId, ?_⟩
    exact congrArg scope.undo (World.variablesOf_congr (by rw [hTraced]))
  | @run v canceled output p next crew crew' event _ hStep =>
    obtain ⟨hOverlay, hShared, hCrew⟩ := h
    have hWithin : (crew.within w).Fits K p.commands.length := ⟨hCrew.workers, hCrew.count⟩
    obtain ⟨hFits, hInRange, hUndone⟩ := hWithin.step hOverlay hShared hId hStep
    exact ⟨⟨hOverlay, hShared, hFits⟩, hInRange, hUndone⟩
  | @conclude v canceled output p next crew _ hOver =>
    obtain ⟨hOverlay, hShared, hCrew⟩ := h
    have hCall : crew.call? = none := by simp [Crew.call?, hOver.1]
    refine ⟨⟨hOverlay, hShared⟩, hId, ?_⟩
    simp [undo, hCall]
  | @leave v scope canceled stopped result _ =>
    obtain ⟨rfl, hShared⟩ := h
    refine ⟨trivial, by simpa [World.setOverlay] using hId, ?_⟩
    exact (World.variablesOf_setOverlay hId _).trans (scope.undo_restore _)
  | stop => exact ⟨h, hId, rfl⟩

end Invocation

/-- Scripts undo what they change if the scripts that their stages run do. -/
def Calls.Restores.invocations {C : Calls} {id : Nat} (K : C.Restores id) (programs : Host.Programs) :
    (invocations programs C (· = 1)).Restores id where
  undo := Invocation.undo K
  Fits := Invocation.Fits K
  start {context file line text} hOverlay := by
    unfold Pipework.invocations
    dsimp only
    split
    · exact ⟨trivial, rfl⟩
    · exact ⟨hOverlay, rfl⟩
  step hFits hId hStep := hFits.step hId hStep
  ended {c result} hResult := by
    cases c with
    | ended => rfl
    | _ => cases hResult

def calls.restores (programs : Host.Programs) (id : Nat) : (depth : Nat) → (calls programs (· = 1) depth).Restores id
  | 0 => Calls.tooDeep.restores id
  | depth + 1 => (calls.restores programs id depth).invocations programs

/-- A script leaves the variables of its overlay as it found them, whatever it sets, in whatever order its
stages act, and however it ends. Stages that run scripts on the same overlay have no other stage beside them,
and what goes on outside of the script keeps to other overlays. -/
theorem Invocation.overlay_restored {programs : Host.Programs} {depth : Nat} {context : Context} {m : Mode}
    {script : Script} {id : Nat} {w w' : World} {result : Except Fault String}
    (hOverlay : context.overlay = some id) (hId : id < w.overlays.length)
    (hCourse : (invocations programs (calls programs (· = 1) depth) (· = 1)).Course
      (fun w w' => w'.overlays[id]? = w.overlays[id]?) (.fresh context m script, w) (.ended result, w')) :
    w'.variablesOf id = w.variablesOf id := by
  let K := (calls.restores programs id depth).invocations programs
  have hStart : K.Fits (.fresh context m script) := hOverlay
  obtain ⟨-, -, hUndo⟩ := hCourse.undo K hStart hId
  exact hUndo

namespace Invocation

def setting : Command := ⟨["setenv", "A", "1"], [], []⟩

theorem overlay_restored_setting :
    ∃ result w', (invocations [] (calls [] (· = 1) 0) (· = 1)).Course
        (fun w w' => w'.overlays[0]? = w.overlays[0]?)
        (.fresh ⟨[], some 0, false⟩ .run ⟨[⟨⟨[setting], false, "", 1⟩, []⟩]⟩, .bench [("A", "0")])
        (.ended result, w') ∧
      w'.variablesOf 0 "A" = some "0" := by
  let p : Pipeline := ⟨[setting], false, "", 1⟩
  let line : Line := Invoker.bench.openLine p ⟨.bench [("A", "0")], .opened, false, false⟩
  let line' : Line := { line with world := .bench [("A", "1")], scope := ⟨[("A", some "0")]⟩ }
  let start : Launch := Invoker.bench.builtinLaunch .host 0 true setting line (.concurrent Builtin.setVariable)
  let fresh : Worker Calls.tooDeep.State := start.worker
  let done : Worker Calls.tooDeep.State := ⟨start.stage, false, .ready (.done (.ok ())) start.desk⟩
  have hLaunch : Crew.Step .bench .host .tooDeep (1 = 1) (.start [setting] line) (.launched 0)
      ⟨line, [], 1, [fresh], none⟩ :=
    .launch rfl rfl (by simp [Crew.start]) (Invoker.bench.launch_builtin .host 0 true rfl rfl)
  have hSet : Acts .tooDeep (1 = 1) fresh.stage (.on fresh.work, line) (.on done.work, line') :=
    .act (fun _ _ _ _ w => .done (.ok "") w) rfl
  have hOver : Acts .tooDeep (1 = 1) done.stage (.on done.work, line')
      (.ended none, done.stage.close none start.desk line') := .finish
  have hAct := @Crew.Step.act .bench .host _ _ ⟨line, [], 1, [fresh], none⟩ [] [] fresh _ _ rfl hSet
  have hFinish := @Crew.Step.finish .bench .host _ _ ⟨line', [], 1, [done], none⟩ [] [] done _ _ rfl hOver
  have hCourse : (invocations [] (calls [] (· = 1) 0) (· = 1)).Course
      (fun w w' => w'.overlays[0]? = w.overlays[0]?)
      (.fresh ⟨[], some 0, false⟩ .run ⟨[⟨p, []⟩]⟩, .bench [("A", "0")])
      (.ended (.ok (capturedText [])), .bench [("A", "0")]) := by
    refine .head (.inl .enter) ?_
    refine .head (.inl .take) ?_
    refine .head (.inl (.run hLaunch)) ?_
    refine .head (.inl (.run hAct)) ?_
    refine .head (.inl (.run hFinish)) ?_
    refine .head (.inl (.conclude ⟨rfl, .inl rfl⟩)) ?_
    exact .single (.inl .leave)
  refine ⟨_, _, hCourse, ?_⟩
  rw [overlay_restored rfl Nat.one_pos hCourse]
  rfl

end Invocation

end Pipework
