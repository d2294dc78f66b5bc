import Pipework.Proofs.Flags.Pipeline
import Pipework.Proofs.Modes.Attempts

/-!
# Scripts that go in step

Between its pipelines, a script with a variable and one without it are in worlds that differ only by the variable.
If a pipeline loses step it fails, and so does a script that tries nothing else.
-/

namespace Pipework

/-- The invocation finds the value `1` for the variable `key`. -/
def Context.flag (context : Context) (w : World) (key : String) : Bool :=
  lookupThrough ((context.enter w).2.overlay (context.enter w).1) w.host.env key == some "1"

namespace Invoker

def Phase.signaled (signal : Signal) (phase : Phase) : Phase :=
  { phase with canceled := phase.canceled || signal.isStop, stopped := phase.stopped || signal.isStop }

variable (v : Invoker) (nested : Nested) (key : String)

/-- The commands of each pipeline that is tried of `ps` ignore the variable `key`, whatever happens. -/
def HeedlessAlternatives (output : Output) : List Pipeline → Phase → Prop
  | [], _ => True
  | p :: rest, phase =>
    v.Heedless nested key output 0 p.commands (v.firstLine p phase) ∧
      ∀ story fault text after,
        (v.runPipeline nested output p phase).Yields Phase.signaled story (some fault, text) after → p.ignore = false →
          HeedlessAlternatives output rest after

def HeedlessStatements (m : Mode) : List Statement → Phase → Prop
  | [], _ => True
  | s :: rest, phase =>
    v.HeedlessAlternatives nested key (m.output rest.isEmpty) s.alternatives phase ∧
      ∀ story text after,
        (v.runAlternatives nested (m.output rest.isEmpty) s.alternatives phase).Yields Phase.signaled story (.ok text)
          after → HeedlessStatements m rest after

end Invoker

/-- The variable `key`, set for the invocation and not in a second run. -/
def Context.hiding (context : Context) (w : World) (key : String) (hKey : key = pipefailVar ∨ key = debugVar) :
    Hiding where
  key := key
  proper := by rcases hKey with rfl | rfl <;> decide +kernel
  ne_path := by rcases hKey with rfl | rfl <;> decide
  ne_directory := by rcases hKey with rfl | rfl <;> decide
  overlay := (context.enter w).1
  trace := w.trace

namespace Script

def begun (context : Context) (m : Mode) (w : World) : Invoker.Phase :=
  ⟨(context.enter w).2, .opened, context.canceled || m == .abandoned, m == .abandoned⟩

/-- The commands of each pipeline that the script tries ignore the variable `key`. -/
def Heedless (key : String) (programs : Host.Programs) (context : Context) (m : Mode) (script : Script) (w : World) :
    Prop :=
  (Invoker.mk programs context (context.enter w).1).HeedlessStatements (nestedRun programs maxDepth) key m
    script.statements (begun context m w)

end Script

namespace Hiding

variable (H : Hiding)

/-- A failure that is lost ends the whole script. -/
def Fatal {ε α : Type} (result : Except ε α) : Prop := H.key = pipefailVar ∧ ∃ fault, result = .error fault

def phase (phase : Invoker.Phase) : Invoker.Phase := { phase with world := H.world phase.world }

def phases : Run.Shadow Invoker.Phase :=
  ⟨H.phase, fun phase => H.Sound phase.world phase.scope, fun _ => H.key = pipefailVar⟩

variable {H} {w : World} {scope : Scope}

theorem flag_pipefail (v : Invoker) (w : World) :
    v.flag (H.world w) pipefailVar = (v.flag w pipefailVar && H.key != pipefailVar) := by
  unfold Invoker.flag
  by_cases hKey : H.key = pipefailVar
  · have hUnset : lookupThrough ((H.world w).overlay v.overlay) (H.world w).host.env pipefailVar = none :=
      hKey ▸ unset_world w v.overlay
    rw [hUnset, hKey, bne_self_eq_false, Bool.and_false]
    rfl
  · rw [lookup_world w v.overlay (Ne.symm hKey), bne_iff_ne.mpr hKey, Bool.and_true]

end Hiding

namespace Invoker

variable {H : Hiding} {v : Invoker} {nested : Nested} {output : Output} {phase : Phase}

theorem openLine_phase (p : Pipeline) (phase : Phase) : v.openLine p (H.phase phase) = H.line (v.openLine p phase) := by
  have hBoard : Board.opened (v.flag (H.world phase.world) pipefailVar) =
      H.board (.opened (v.flag phase.world pipefailVar)) := by
    rw [Hiding.flag_pipefail]
    rfl
  exact congrArg (fun board => { H.line (v.openLine p phase) with board := board }) hBoard

theorem fits_openLine (h : H.Sound phase.world phase.scope) (p : Pipeline) : H.Fits (v.openLine p phase) := by
  refine ⟨h, fun hLost => ?_⟩
  have hNone : (v.openLine p phase).board.cancels = false := Bool.and_false _
  exact Bool.false_ne_true (hNone.symm.trans hLost.2)

theorem sound_traced (h : H.Sound phase.world phase.scope) (p : Pipeline) :
    H.Sound (v.traced p phase.world) phase.scope := by
  refine h.of_tables ?_
  unfold traced
  split <;> rfl

theorem kept_signaled : H.phases.Kept Phase.signaled := ⟨fun _ _ hFits => hFits, fun _ _ => rfl, fun _ _ hLost => hLost⟩

theorem runPipeline_inStep {p : Pipeline}
    (hHeedless : v.Heedless nested H.key output 0 p.commands (v.firstLine p phase))
    (hSound : H.Sound phase.world phase.scope) :
    (v.runPipeline nested output p phase).InStep H.phases (fun x _ => H.key = pipefailVar ∧ x.1 ≠ none)
      (v.runPipeline nested output p (H.phase phase)) := by
  have hTraced : v.traced p (H.phase phase).world = H.world (v.traced p phase.world) :=
    Hiding.traced_world p phase.world
  have hOpen := openLine_phase (H := H) (v := v) p { phase with world := v.traced p phase.world }
  have hFits : H.Fits (v.firstLine p phase) := fits_openLine (sound_traced hSound p) p
  have hStages := Hiding.runStages_inStep hHeedless hFits
  rw [firstLine, ← hOpen] at hStages
  unfold runPipeline
  dsimp only
  rw [hTraced]
  exact hStages.within_bind (T := H.phases) (fun _ => rfl) (fun _ _ _ => rfl) (fun _ hFits => hFits.1)
    (fun _ _ _ hSound hFits => ⟨hSound, hFits.2⟩) (fun _ hLost => hLost.1) (fun _ _ _ hLost => hLost)
    (fun fault line hFits => .of_done hFits.1 rfl) fun fault line _ hFault => hFault

theorem runPipeline_tracks {p : Pipeline}
    (hHeedless : v.Heedless nested H.key output 0 p.commands (v.firstLine p phase))
    (hSound : H.Sound phase.world phase.scope) :
    (v.runPipeline nested output p phase).Tracks Phase.signaled H.phases (H.key ≠ pipefailVar)
      (fun x _ => H.key = pipefailVar ∧ x.1 ≠ none) (v.runPipeline nested output p (H.phase phase)) :=
  (runPipeline_inStep hHeedless hSound).tracks kept_signaled (fun hSure _ => hSure) fun hSure _ _ hLost => hSure hLost.1

theorem runAlternatives_tracks {ps : List Pipeline} (hHeedless : v.HeedlessAlternatives nested H.key output ps phase)
    (hAlone : H.key = pipefailVar → ps.length ≤ 1 ∧ ∀ p ∈ ps, p.ignore = false)
    (hSound : H.Sound phase.world phase.scope) :
    (v.runAlternatives nested output ps phase).Tracks Phase.signaled H.phases (H.key ≠ pipefailVar)
      (fun result _ => H.Fatal result) (v.runAlternatives nested output ps (H.phase phase)) := by
  induction ps generalizing phase with
  | nil => exact .of_done hSound rfl
  | cons p rest ih =>
    obtain ⟨hFirst, hRest⟩ := hHeedless
    unfold runAlternatives
    refine (runPipeline_tracks hFirst hSound).bind (fun {story x after} hYields hSound => ?_)
      fun {x after last story result} hLost hYields => ?_
    · obtain ⟨fault, text⟩ := x
      cases fault with
      | none => exact .of_done hSound rfl
      | some fault =>
        dsimp only
        cases hIgnore : p.ignore with
        | true => exact .of_done hSound rfl
        | false =>
          rw [if_neg Bool.false_ne_true, if_neg Bool.false_ne_true]
          cases hEmpty : rest.isEmpty with
          | true => exact .of_done hSound rfl
          | false =>
            rw [if_neg Bool.false_ne_true, if_neg Bool.false_ne_true]
            refine ih (hRest story fault text after hYields hIgnore) (fun hKey => ?_) hSound
            obtain ⟨hLength, hIgnores⟩ := hAlone hKey
            rw [List.length_cons] at hLength
            exact ⟨by omega, (List.forall_mem_cons.mp hIgnores).2⟩
    · -- A pipeline that has lost step is the only one, and its failure is not ignored.
      obtain ⟨fault, text⟩ := x
      obtain ⟨hKey, hSome⟩ := hLost
      obtain ⟨hLength, hIgnores⟩ := hAlone hKey
      obtain ⟨fault, rfl⟩ := Option.ne_none_iff_exists'.mp hSome
      obtain rfl : rest = [] := by simpa using hLength
      dsimp only at hYields
      rw [hIgnores p List.mem_cons_self] at hYields
      obtain ⟨-, hResult, -⟩ := Run.yields_done.mp hYields
      exact ⟨hKey, fault, hResult⟩

theorem runStatements_tracks {m : Mode} {ss : List Statement}
    (hHeedless : v.HeedlessStatements nested H.key m ss phase)
    (hAlone : H.key = pipefailVar → ∀ s ∈ ss, s.fallbacks = [] ∧ s.first.ignore = false)
    (text : Bytes) (hSound : H.Sound phase.world phase.scope) :
    (v.runStatements nested m text ss phase).Tracks Phase.signaled H.phases (H.key ≠ pipefailVar)
      (fun result _ => H.Fatal result) (v.runStatements nested m text ss (H.phase phase)) := by
  induction ss generalizing text phase with
  | nil => exact .of_done hSound rfl
  | cons s rest ih =>
    obtain ⟨hFirst, hRest⟩ := hHeedless
    have hLone (hKey : H.key = pipefailVar) : s.alternatives.length ≤ 1 ∧ ∀ p ∈ s.alternatives, p.ignore = false := by
      obtain ⟨hFallbacks, hIgnore⟩ := hAlone hKey s List.mem_cons_self
      simp [Statement.alternatives, hFallbacks, hIgnore]
    unfold runStatements
    refine (runAlternatives_tracks hFirst hLone hSound).bind (fun {story result after} hYields hSound => ?_)
      fun {result after last story result'} hFatal hYields => ?_
    · cases result with
      | error fault => exact .of_done hSound rfl
      | ok text =>
        exact ih (hRest story text after hYields) (fun hKey s hs => hAlone hKey s (List.mem_cons_of_mem _ hs)) text
          hSound
    · obtain ⟨hKey, fault, rfl⟩ := hFatal
      obtain ⟨-, hResult, -⟩ := Run.yields_done.mp hYields
      exact ⟨hKey, fault, hResult⟩

end Invoker

namespace Invoker

variable {v : Invoker} {nested : Nested} {key : String} {output : Output} {phase last : Phase}
  {story : List (Wait × Signal)}

/-- Once its record is written, a pipeline leaves the trace as it is, and the ground on which the shell stands. -/
theorem later_runPipeline {p : Pipeline} (hHeedless : v.Heedless nested key output 0 p.commands (v.firstLine p phase))
    {x : Option Fault × Bytes} (h : (v.runPipeline nested output p phase).Yields Phase.signaled story x last) :
    last.world.trace = (v.traced p phase.world).trace ∧ last.world.ground = phase.world.ground := by
  have hStages := runStages_advances hHeedless
  unfold runPipeline at h
  obtain ⟨first, rest, y, middle, rfl, hWithin, hRest⟩ := Run.yields_bind.mp h
  obtain ⟨hFirst, rfl⟩ := Run.yields_within.mp hWithin
  obtain ⟨-, -, rfl⟩ := Run.yields_done.mp hRest
  have hLater : (v.firstLine p phase).Later y.2 := by
    refine Run.Advances.of_yields Line.Later.chain ?_ hStages hFirst
    exact fun _ _ => ⟨rfl, rfl, id⟩
  exact ⟨hLater.trace, hLater.ground.trans (v.ground_traced p phase.world)⟩

theorem ground_runAlternatives {ps : List Pipeline} (hHeedless : v.HeedlessAlternatives nested key output ps phase)
    {result : Except Fault Bytes}
    (h : (v.runAlternatives nested output ps phase).Yields Phase.signaled story result last) :
    last.world.ground = phase.world.ground := by
  induction ps generalizing phase story with
  | nil =>
    obtain ⟨-, -, rfl⟩ := Run.yields_done.mp h
    rfl
  | cons p rest ih =>
    obtain ⟨hIgnores, hRest⟩ := hHeedless
    obtain ⟨first, story, ⟨fault, text⟩, after, rfl, hFirst, hLast⟩ := Run.yields_bind.mp h
    have hGround := (later_runPipeline hIgnores hFirst).2
    have hEnd {a b : Except Fault Bytes} (h : (Run.done a after).Yields Phase.signaled story b last) :
        last.world.ground = phase.world.ground := by
      obtain ⟨-, -, rfl⟩ := Run.yields_done.mp h
      exact hGround
    cases fault with
    | none => exact hEnd hLast
    | some fault =>
      dsimp only at hLast
      cases hIgnore : p.ignore with
      | true =>
        rw [hIgnore, if_pos rfl] at hLast
        exact hEnd hLast
      | false =>
        rw [hIgnore, if_neg Bool.false_ne_true] at hLast
        split at hLast
        · exact hEnd hLast
        · exact (ih (hRest first fault text after hFirst hIgnore) hLast).trans hGround

end Invoker

theorem Context.enter_world {H : Hiding} (context : Context) (w : World) :
    context.enter (H.world w) = ((context.enter w).1, H.world (context.enter w).2) := by
  unfold Context.enter
  split
  · rfl
  · simp [World.newOverlay, Hiding.world, World.without, Table.erase]

theorem Hiding.restored_world {H : Hiding} {phase : Invoker.Phase} (h : H.Sound phase.world phase.scope) (id : Nat) :
    (H.world phase.world).setOverlay id (phase.scope.restore ((H.world phase.world).overlay id)).2 =
      H.world (phase.world.setOverlay id (phase.scope.restore (phase.world.overlay id)).2) := by
  have hErase := (phase.scope.erase_restore h.scope (mem_overlay .nil h.ordered id)).2
  rw [overlay_world, ← hErase, setOverlay_world]

namespace Script

variable {H : Hiding} {programs : Host.Programs} {context : Context} {m : Mode} {script : Script} {w : World}

theorem execute_yields {story : List (Wait × Signal)} {result : Except Fault String} {last : World} :
    (script.execute programs context m w).Yields (fun _ w => w) story result last ↔ ∃ answer phase,
      ((Invoker.mk programs context (context.enter w).1).runStatements (nestedRun programs maxDepth) m []
        script.statements (begun context m w)).Yields Invoker.Phase.signaled story answer phase ∧
      result = answer.map capturedText ∧ last = left context w phase := by
  unfold execute executeWith
  dsimp only
  rw [Run.yields_bind]
  constructor
  · rintro ⟨first, rest, x, middle, rfl, hFirst, hRest⟩
    obtain ⟨rfl, rfl, rfl⟩ := Run.yields_done.mp hRest
    obtain ⟨hBody, rfl⟩ := Run.yields_within.mp hFirst
    obtain ⟨first, rest, answer, phase, rfl, hStatements, hLast⟩ := Run.yields_bind.mp hBody
    obtain ⟨rfl, hResult, hPhase⟩ := Run.yields_done.mp hLast
    refine ⟨answer, phase, ?_, hResult, by rw [hPhase]; rfl⟩
    rw [List.append_nil, List.append_nil]
    exact hStatements
  · rintro ⟨answer, phase, hStatements, rfl, rfl⟩
    refine ⟨story, [], (answer.map capturedText, { phase with world := left context w phase, scope := .opened }), _,
      (List.append_nil _).symm, Run.yields_within.mpr ⟨?_, rfl⟩, .done⟩
    exact Run.yields_bind.mpr ⟨story, [], answer, phase, (List.append_nil _).symm, hStatements, .done⟩

theorem sound_begun (hOrdered : ∀ o ∈ w.overlays, Table.Ordered o) (hOverlay : (context.enter w).1 = H.overlay)
    (hFlag : context.flag w H.key = true) (m : Mode) :
    H.Sound (begun context m w).world (begun context m w).scope := by
  have hEnter : (context.enter w).2.host.env = w.host.env ∧ ∀ o ∈ (context.enter w).2.overlays, Table.Ordered o := by
    unfold Context.enter
    split
    · exact ⟨rfl, hOrdered⟩
    · exact ⟨rfl, List.forall_mem_append.mpr ⟨hOrdered, List.forall_mem_singleton.mpr .nil⟩⟩
  refine ⟨hEnter.2, ?_, rfl⟩
  rw [← hOverlay, show (begun context m w).world.host.env = w.host.env from hEnter.1]
  exact eq_of_beq hFlag

theorem begun_world (context : Context) (m : Mode) (w : World) :
    begun context m (H.world w) = H.phase (begun context m w) := by
  simp only [begun, Context.enter_world, Hiding.phase]

theorem left_world {phase : Invoker.Phase} (hSound : H.Sound phase.world phase.scope) :
    left context (H.world w) (H.phase phase) = H.world (left context w phase) := by
  rw [left, Context.enter_world]
  exact Hiding.restored_world hSound _

variable (hHeedless : script.Heedless H.key programs context m w)
  (hAlone : H.key = pipefailVar → ∀ s ∈ script.statements, s.fallbacks = [] ∧ s.first.ignore = false)
  (hSound : H.Sound (begun context m w).world (begun context m w).scope)
  {story : List (Wait × Signal)} {result : Except Fault String} {last : World}

include hHeedless hAlone hSound

theorem yields_without (h : (script.execute programs context m w).Yields (fun _ w => w) story result last) :
    H.Fatal result ∨
      (script.execute programs context m (H.world w)).Yields (fun _ w => w) story result (H.world last) := by
  obtain ⟨answer, phase, hFirst, rfl, rfl⟩ := execute_yields.mp h
  rcases (Invoker.runStatements_tracks hHeedless hAlone [] hSound).forth hFirst with
    ⟨hKey, fault, rfl⟩ | ⟨hEnd, hSecond⟩
  · exact .inl ⟨hKey, fault, rfl⟩
  · refine .inr (execute_yields.mpr ⟨answer, H.phase phase, ?_, rfl, (left_world hEnd).symm⟩)
    rw [begun_world, Context.enter_world]
    exact hSecond

theorem yields_with (hKey : H.key ≠ pipefailVar)
    (h : (script.execute programs context m (H.world w)).Yields (fun _ w => w) story result last) :
    ∃ last', (script.execute programs context m w).Yields (fun _ w => w) story result last' ∧ last = H.world last' := by
  obtain ⟨answer, phase, hSecond, rfl, rfl⟩ := execute_yields.mp h
  rw [begun_world, Context.enter_world] at hSecond
  obtain ⟨phase, hFirst, hEnd, rfl⟩ := (Invoker.runStatements_tracks hHeedless hAlone [] hSound).back hKey hSecond
  exact ⟨left context w phase, execute_yields.mpr ⟨answer, phase, hFirst, rfl, rfl⟩, left_world hEnd⟩

end Script

end Pipework
