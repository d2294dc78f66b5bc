import Pipework.Proofs.Schedule.Restore

/-!
# Stages that keep the directory

Where a command works is decided by the directory that its overlay sets, and by the ground on which the shell stands.
Stages keep both as long as they do not set that variable. The scripts that they run keep them as well,
unless they work on the same overlay.
-/

namespace Pipework

/-- The directory that the overlay `id` sets, if there is such an overlay, and the ground. -/
def World.footing (w : World) (id : Nat) : Option String × (String → Option Builtin) × String :=
  (w.overlays[id]?.map Overlay.directory, w.ground)

namespace World

variable {w : World} {id : Nat}

theorem footing_congr {w' : World} (hOverlays : w'.overlays = w.overlays) (hGround : w'.ground = w.ground) :
    w'.footing id = w.footing id := by
  rw [footing, hOverlays, hGround, footing]

theorem footing_setOverlay {other : Nat} (hOther : other ≠ id) (o : Overlay) :
    (w.setOverlay other o).footing id = w.footing id :=
  congrArg (fun set : Option Overlay => (set.map Overlay.directory, w.ground)) (List.getElem?_set_ne hOther)

theorem footing_assign {key : String} (hKey : key ≠ directoryVar) (value : Option String) :
    (w.setOverlay id (Table.assign key value (w.overlay id))).footing id = w.footing id := by
  have hSame : Overlay.directory (Table.assign key value (w.overlay id)) = (w.overlay id).directory := by
    rw [Overlay.directory, Table.find?_assign, if_neg (Ne.symm hKey), Overlay.directory]
  refine Prod.ext ?_ rfl
  by_cases hId : id < w.overlays.length
  · simpa [footing, setOverlay, hId, overlay] using hSame
  · simp [footing, setOverlay, hId]

theorem footing_move {dir : String} {ground : (String → Option Builtin) × String}
    (h : w.footing id = (some dir, ground)) (target : String) :
    (w.setOverlay id (Table.assign directoryVar (some target) (w.overlay id))).footing id = (some target, ground) := by
  have hId : id < w.overlays.length := by
    have hSome : (w.overlays[id]?.map Overlay.directory).isSome = true := by
      rw [show w.overlays[id]?.map Overlay.directory = some dir from congrArg Prod.fst h]
      rfl
    simpa using hSome
  have hGround : w.ground = ground := congrArg Prod.snd h
  refine Prod.ext ?_ hGround
  simp [footing, setOverlay, hId, Overlay.directory, Table.find?_assign]

theorem footing_newOverlay (h : (w.footing id).1.isSome = true) : w.newOverlay.2.footing id = w.footing id := by
  have hId : id < w.overlays.length := by simpa [footing] using h
  refine Prod.ext ?_ rfl
  simp [footing, newOverlay, List.getElem?_append_left hId]

theorem directory_of_footing {v : Invoker} {dir : String} {ground : (String → Option Builtin) × String}
    (h : w.footing v.overlay = (some dir, ground)) : v.directory w = dir := by
  obtain ⟨o, hOverlay, hDir⟩ := Option.map_eq_some_iff.mp (congrArg Prod.fst h)
  rw [Invoker.directory, overlay, List.getD_eq_getElem?_getD, hOverlay]
  exact hDir

theorem footing_eq {v : Invoker} (h : v.overlay < w.overlays.length) :
    w.footing v.overlay = (some (v.directory w), w.ground) := by
  simp [footing, Invoker.directory, overlay, h]

end World

/-- Calls that keep the directory of the overlay `id`, since they work on others. -/
structure Calls.Keeps (C : Calls) (id : Nat) where
  Fits : C.State → Prop
  start {context : Context} {file : String} {line : Int} {text : String} (hOverlay : context.overlay ≠ some id) :
    Fits (C.start context file line text)
  step {c c' : C.State} {w w' : World} (hFits : Fits c) (hId : (w.footing id).1.isSome = true)
    (hStep : C.Step (c, w) (c', w')) : Fits c' ∧ w'.footing id = w.footing id

def Calls.tooDeep.keeps (id : Nat) : Calls.tooDeep.Keeps id where
  Fits _ := True
  start _ := trivial
  step _ _ hStep := hStep.elim

/-- What a stage does next neither sets the directory of the overlay `id` nor runs a script on it. -/
def Work.Keeps {S : Type} (id : Nat) (st : Stage) : Work S → Prop
  | .ready (.act (.assign key _) _) _ => key = directoryVar → st.overlay ≠ id
  | .ready (.act (.invoke _ _ _) _) _ => st.context.overlay ≠ some id
  | _ => True

section Turns

variable {C : Calls} {id : Nat} (K : C.Keeps id) {mayCall : Prop}

theorem Stage.closed_footing (st : Stage) (fault : Option Fault) (desk : Desk) (line : Line) :
    (st.closed (S := C.State) fault desk line).2.world.footing id = line.world.footing id :=
  World.footing_congr (st.overlays_close desk line fault) (st.ground_close desk line fault)

theorem Stage.after_footing (id : Nat) (st : Stage) {action : Action}
    (next : action.Answer → Program (Except Fault Unit)) {reply : Reply action.Answer} {line : Line}
    (h : Run.Leaves Line.frame line.frame reply) :
    (st.after (S := C.State) next reply).2.world.footing id = line.world.footing id ∧
      (st.after (S := C.State) next reply).1.call? = none := by
  have hSame : ∀ line' : Line, line'.frame = line.frame → line'.world.footing id = line.world.footing id := by
    intro line' hFrame
    exact World.footing_congr (congrArg Line.Frame.overlays hFrame) (congrArg Line.Frame.ground hFrame)
  cases reply with
  | done result line' =>
    obtain ⟨desk, answer⟩ := result
    cases answer with
    | some answer => exact ⟨hSame line' h, rfl⟩
    | none => exact ⟨(st.closed_footing _ desk line').trans (hSame line' h), rfl⟩
  | wait why line' resume => exact ⟨hSame line' h.1, rfl⟩

theorem Acts.footing {st : Stage} {work : Work C.State} {line : Line} {x : Turn C.State × Line}
    (h : Acts C mayCall st (.on work, line) x) (hKeeps : work.Keeps id st) (hSteady : work.Steady)
    (hCalls : ∀ call ∈ work.call?, K.Fits call) (hId : (line.world.footing id).1.isSome = true) :
    x.2.world.footing id = line.world.footing id ∧ ∀ call ∈ x.1.call?, K.Fits call := by
  have hAfter {action : Action} (next : action.Answer → Program (Except Fault Unit)) {reply : Reply action.Answer}
      (hReply : Run.Leaves Line.frame line.frame reply) :
      (st.after (S := C.State) next reply).2.world.footing id = line.world.footing id ∧
        ∀ call ∈ (st.after (S := C.State) next reply).1.call?, K.Fits call := by
    obtain ⟨hSame, hNone⟩ := st.after_footing (C := C) id next hReply
    rw [hNone]
    exact ⟨hSame, by rintro call ⟨⟩⟩
  cases h with
  | @act action next desk _ nested hInvokes =>
    cases hAssigns : action.assigns with
    | false => exact hAfter next (st.perform_leaves nested desk line hInvokes hAssigns)
    | true =>
      cases action with
      | assign key value =>
        refine ⟨?_, by rintro call ⟨⟩⟩
        by_cases hOverlay : st.overlay = id
        · subst hOverlay
          exact World.footing_assign (fun hKey => hKeeps hKey rfl) (some value)
        · exact World.footing_setOverlay hOverlay _
      | _ => cases hAssigns
  | call hCall =>
    refine ⟨rfl, ?_⟩
    rintro _ ⟨rfl⟩
    exact K.start hKeeps
  | inner hStep =>
    obtain ⟨hFits, hSame⟩ := K.step (hCalls _ rfl) hId hStep
    refine ⟨hSame, ?_⟩
    rintro _ ⟨rfl⟩
    exact hFits
  | answer hResult => exact ⟨rfl, by rintro call ⟨⟩⟩
  | resume signal hStop => exact hAfter _ (hSteady signal line)
  | kill hProcess hCanceled => exact ⟨st.closed_footing _ _ line, by rintro call ⟨⟩⟩
  | finish => exact ⟨st.closed_footing _ _ line, by rintro call ⟨⟩⟩

end Turns

theorem Invoker.footing_launch (v : Invoker) (id : Nat) (output : Output) (index : Nat) (isLast : Bool) (c : Command)
    (line : Line) : (v.launch output index isLast c line).2.world.footing id = line.world.footing id :=
  World.footing_congr (v.overlays_launch output index isLast c line) (v.ground_launch output index isLast c line)

/-- A stage that works on another overlay than `id`, and shares another one or none. -/
structure Worker.Aside {C : Calls} {id : Nat} (K : C.Keeps id) (w : Worker C.State) : Prop where
  overlay : w.stage.overlay ≠ id
  shared : w.stage.context.overlay ≠ some id
  steady : w.work.Steady
  calls : ∀ call ∈ w.work.call?, K.Fits call

theorem Worker.Aside.keeps {C : Calls} {id : Nat} {K : C.Keeps id} {w : Worker C.State} (h : w.Aside K) :
    w.work.Keeps id w.stage := by
  unfold Work.Keeps
  split
  · exact fun _ => h.overlay
  · exact h.shared
  · trivial

namespace Crew

variable {C : Calls} {id : Nat} (K : C.Keeps id) {mayCall : Prop} {v : Invoker} {output : Output}

def Aside (crew : Crew C.State) : Prop := ∀ w ∈ crew.workers, w.Aside K

variable {K} {crew crew' : Crew C.State} {event : Event}

theorem Aside.step (h : crew.Aside K) (hOverlay : v.overlay ≠ id) (hShared : v.context.overlay ≠ some id)
    (hId : (crew.line.world.footing id).1.isSome = true) (hStep : Step v output C mayCall crew event crew') :
    crew'.Aside K ∧ crew'.line.world.footing id = crew.line.world.footing id := by
  cases hStep with
  | @launch c rest start line hPending hRefusal hOrder hLaunch =>
    have hSame := v.footing_launch id output crew.launched rest.isEmpty c crew.line
    obtain ⟨-, -, -, hStage, hContext⟩ := v.stage_launch output crew.launched rest.isEmpty c crew.line (by rw [hLaunch])
    rw [hLaunch] at hSame
    refine ⟨List.forall_mem_append.mpr ⟨h, List.forall_mem_singleton.mpr ?_⟩, hSame⟩
    constructor
    · exact fun hEq => hOverlay (hStage.symm.trans hEq)
    · exact fun hEq => hShared ((congrArg Context.overlay hContext).symm.trans hEq)
    · trivial
    · rintro call ⟨⟩
  | @refuse c rest fault line hPending hRefusal hOrder hLaunch =>
    have hSame := v.footing_launch id output crew.launched rest.isEmpty c crew.line
    rw [hLaunch] at hSame
    exact ⟨h, hSame⟩
  | @act before after w work line hWorkers hActs =>
    have hWorker := h w (hWorkers ▸ List.mem_append_right before List.mem_cons_self)
    obtain ⟨hSame, hCalls⟩ := hActs.footing K hWorker.keeps hWorker.steady hWorker.calls hId
    have hNew : Worker.Aside K { w with work := work } :=
      ⟨hWorker.overlay, hWorker.shared, hActs.steady hWorker.steady, hCalls⟩
    refine ⟨?_, hSame⟩
    unfold Aside at h ⊢
    grind
  | @finish before after w result line hWorkers hActs =>
    have hWorker := h w (hWorkers ▸ List.mem_append_right before List.mem_cons_self)
    obtain ⟨hSame, -⟩ := hActs.footing K hWorker.keeps hWorker.steady hWorker.calls hId
    refine ⟨?_, hSame⟩
    unfold Aside at h ⊢
    grind
  | stop => exact ⟨h, rfl⟩

end Crew

namespace Invocation

variable {C : Calls} {id : Nat} (K : C.Keeps id)

def Aside : Invocation C.State → Prop
  | .fresh context _ _ => context.overlay ≠ some id
  | .between v _ _ _ _ => v.overlay ≠ id ∧ v.context.overlay ≠ some id
  | .running v _ _ _ _ crew => v.overlay ≠ id ∧ v.context.overlay ≠ some id ∧ crew.Aside K
  | .ended _ => True

variable {K} {programs : Host.Programs} {mayCall : Nat → Prop}

theorem Aside.step {c c' : Invocation C.State} {w w' : World} (h : c.Aside K)
    (hId : (w.footing id).1.isSome = true) (hStep : Step programs C mayCall (c, w) (c', w')) :
    c'.Aside K ∧ w'.footing id = w.footing id := by
  cases hStep with
  | @enter context m script _ =>
    have hShared : context.overlay ≠ some id := h
    unfold Context.enter
    cases hOverlay : context.overlay with
    | some other =>
      have hOther : other ≠ id := fun hEq => hShared (hOverlay.trans (congrArg some hEq))
      exact ⟨⟨hOther, hShared⟩, rfl⟩
    | none =>
      have hInRange : id < w.overlays.length := by simpa [World.footing] using hId
      exact ⟨⟨Nat.ne_of_gt hInRange, hShared⟩, World.footing_newOverlay hId⟩
  | @take v scope canceled stopped output p next _ =>
    refine ⟨⟨h.1, h.2, ?_⟩, World.footing_congr (v.overlays_traced p w) (v.ground_traced p w)⟩
    rintro w' ⟨⟩
  | @run v canceled output p next crew crew' event _ hStep =>
    obtain ⟨hOverlay, hShared, hCrew⟩ := h
    have hWithin : (crew.within w).Aside K := hCrew
    obtain ⟨hAside, hSame⟩ := hWithin.step hOverlay hShared hId hStep
    exact ⟨⟨hOverlay, hShared, hAside⟩, hSame⟩
  | conclude hOver => exact ⟨⟨h.1, h.2.1⟩, rfl⟩
  | leave => exact ⟨trivial, World.footing_setOverlay h.1 _⟩
  | stop => exact ⟨h, rfl⟩

end Invocation

def Calls.Keeps.invocations {C : Calls} {id : Nat} (K : C.Keeps id) (programs : Host.Programs) (mayCall : Nat → Prop) :
    (invocations programs C mayCall).Keeps id where
  Fits := Invocation.Aside K
  start {context file line text} hOverlay := by
    unfold Pipework.invocations
    dsimp only
    split
    · trivial
    · exact hOverlay
  step hFits hId hStep := hFits.step hId hStep

def calls.keeps (programs : Host.Programs) (mayCall : Nat → Prop) (id : Nat) :
    (depth : Nat) → (calls programs mayCall depth).Keeps id
  | 0 => Calls.tooDeep.keeps id
  | depth + 1 => (calls.keeps programs mayCall id depth).invocations programs mayCall

end Pipework
