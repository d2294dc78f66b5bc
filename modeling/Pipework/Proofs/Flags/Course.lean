import Pipework.Proofs.Flags.Crew
import Pipework.Proofs.Flags.Heedless
import Pipework.Proofs.Schedule.Invocation

/-!
# Scripts in any order, with a variable and without it

Between a script with a variable and one without it nothing but the variable differs, in whatever order the
stages take turns, until a failure ends a pipeline of the first one only. Then the first one is bound to fail. So
what it may come to when it succeeds, the second one may come to as well.
-/

namespace Pipework

open Relation

/-- A pipeline that fails is the end of the script. -/
inductive Plan.Strict : Plan → Prop
  | done {result : Except Fault Bytes} : Strict (.done result)
  | attempt {output : Output} {p : Pipeline} {next : Option Fault → Bytes → Plan}
      (hFails : ∀ fault text, ∃ fault', next (some fault) text = .done (.error fault'))
      (hSucceeds : ∀ text, (next none text).Strict) : Strict (.attempt output p next)

theorem Plan.strict_statements {ss : List Statement} (hAlone : ∀ s ∈ ss, s.fallbacks = [] ∧ s.first.ignore = false)
    (m : Mode) (text : Bytes) : (Plan.statements m text ss).Strict := by
  induction ss generalizing text with
  | nil => exact .done
  | cons s rest ih =>
    obtain ⟨⟨hFallbacks, hIgnore⟩, hRest⟩ := List.forall_mem_cons.mp hAlone
    have hAlternatives : s.alternatives = [s.first] := by rw [Statement.alternatives, hFallbacks]
    rw [statements, hAlternatives, alternatives]
    refine .attempt (fun fault text => ⟨fault, ?_⟩) fun text => ih hRest text
    simp [hIgnore]

theorem Plan.Strict.next {output : Output} {p : Pipeline} {next : Option Fault → Bytes → Plan}
    (h : (Plan.attempt output p next).Strict) (fault : Option Fault) (text : Bytes) : (next fault text).Strict := by
  cases h with
  | attempt hFails hSucceeds =>
    cases fault with
    | none => exact hSucceeds text
    | some fault =>
      obtain ⟨fault', hNext⟩ := hFails fault text
      exact hNext ▸ .done

/-- Each command that may be run is one of `P`. -/
inductive Plan.Tries (P : Command → Prop) : Plan → Prop
  | done {result : Except Fault Bytes} : Tries P (.done result)
  | attempt {output : Output} {p : Pipeline} {next : Option Fault → Bytes → Plan} (hCommands : ∀ c ∈ p.commands, P c)
      (hNext : ∀ fault text, (next fault text).Tries P) : Tries P (.attempt output p next)

section Tries

variable {P : Command → Prop}

theorem Plan.tries_alternatives {output : Output} {next : Except Fault Bytes → Plan} {ps : List Pipeline}
    (hCommands : ∀ p ∈ ps, ∀ c ∈ p.commands, P c) (hNext : ∀ result, (next result).Tries P) :
    (Plan.alternatives output next ps).Tries P := by
  induction ps with
  | nil => exact hNext _
  | cons p rest ih =>
    obtain ⟨hFirst, hRest⟩ := List.forall_mem_cons.mp hCommands
    refine .attempt hFirst fun fault text => ?_
    cases fault with
    | none => exact hNext _
    | some fault =>
      dsimp only
      split
      · exact hNext _
      · split
        · exact hNext _
        · exact ih hRest

theorem Plan.tries_statements {ss : List Statement} (hCommands : ∀ s ∈ ss, ∀ p ∈ s.alternatives, ∀ c ∈ p.commands, P c)
    (m : Mode) (text : Bytes) : (Plan.statements m text ss).Tries P := by
  induction ss generalizing text with
  | nil => exact .done
  | cons s rest ih =>
    obtain ⟨hFirst, hRest⟩ := List.forall_mem_cons.mp hCommands
    refine tries_alternatives hFirst fun result => ?_
    cases result with
    | error fault => exact .done
    | ok text => exact ih hRest text

end Tries

theorem Crew.Step.pending {v : Invoker} {output : Output} {C : Calls} {mayCall : Prop} {crew crew' : Crew C.State}
    {event : Event} (h : Step v output C mayCall crew event crew') : ∀ c ∈ crew'.pending, c ∈ crew.pending := by
  cases h with
  | launch hPending => exact fun c hc => hPending ▸ List.mem_cons_of_mem _ hc
  | _ => exact fun c hc => hc

namespace Invocation

def isStopped {S : Type} : Invocation S → Bool
  | .fresh _ m _ => m == .abandoned
  | .between _ _ _ stopped _ => stopped
  | .running _ _ _ _ _ crew => crew.line.stopped
  | .ended _ => false

/-- The stages of the pipeline that is tried, if any, wait for their input. -/
def Proceeds (C : Calls) (mayCall : Nat → Prop) (stops : Prop) :
    Invocation C.State × World → Invocation C.State × World → Prop
  | (.running v _ output p _ crew, w), (.running _ _ _ _ _ crew', _) =>
    Crew.Proceeds v output C (mayCall p.commands.length) stops (crew.within w) crew'
  | _, _ => True

/-- A step of a script in a course in which each wait for input lasts until there is enough of it, or it has ended. It
may be that the script is stopped only if it `stops`. -/
structure Goes (programs : Host.Programs) (C : Calls) (mayCall : Nat → Prop) (stops : Prop)
    (x y : Invocation C.State × World) : Prop where
  step : Step programs C mayCall x y
  stopped : y.1.isStopped = true → stops ∨ x.1.isStopped = true
  proceeds : Proceeds C mayCall stops x y

/-- No stage at work asks for the variable `key`, sets it or runs a script. -/
def Avoids {S : Type} (key : String) : Invocation S → Prop
  | .running _ _ _ _ _ crew => crew.Avoids key
  | _ => True

/-- The command that is launched next ignores the variable `key`. -/
def Heedless {S : Type} (key : String) : Invocation S × World → Prop
  | (.running v _ output _ _ crew, w) => (crew.within w).Heedless v output key
  | _ => True

/-- A failure has ended a pipeline, and with it the script. -/
def Doomed {S : Type} : Invocation S → Prop
  | .fresh _ _ _ => False
  | .between _ _ _ _ plan => ∃ fault, plan = .done (.error fault)
  | .running _ _ output p next crew => (Plan.attempt output p next).Strict ∧ crew.line.board.cancels = true
  | .ended result => ∃ fault, result = .error fault

variable {programs : Host.Programs} {C : Calls} {mayCall : Nat → Prop} {key : String} {x y : Invocation C.State × World}

theorem Step.avoids (h : Step programs C mayCall x y) (hAvoids : x.1.Avoids key) (hHeedless : Heedless key x) :
    y.1.Avoids key := by
  cases h with
  | take => exact List.forall_mem_nil _
  | run hStep => exact (hStep.later hAvoids hHeedless).1
  | _ => trivial

theorem Step.doomed (h : Step programs C mayCall x y) (hAvoids : x.1.Avoids key) (hHeedless : Heedless key x)
    (hDoomed : x.1.Doomed) : y.1.Doomed := by
  cases h with
  | enter => exact hDoomed.elim
  | take =>
    obtain ⟨fault, hPlan⟩ := hDoomed
    cases hPlan
  | run hStep => exact ⟨hDoomed.1, (hStep.later hAvoids hHeedless).2.cancels hDoomed.2⟩
  | @conclude v canceled output p next crew w hOver =>
    obtain ⟨hStrict, hCancels⟩ := hDoomed
    have hVerdict : crew.verdict ≠ none := by
      simpa [Crew.verdict] using fun _ => Board.verdict_ne_none hCancels
    obtain ⟨fault, hFault⟩ := Option.ne_none_iff_exists'.mp hVerdict
    rw [hFault]
    cases hStrict with
    | attempt hFails _ => exact hFails fault crew.line.captured
  | leave =>
    obtain ⟨fault, hPlan⟩ := hDoomed
    cases hPlan
    exact ⟨fault, rfl⟩
  | stop => exact hDoomed

/-- All commands that may still be launched run builtins that ignore the variable `key`. -/
def Spares {S : Type} (key : String) (builtins : String → Option Builtin) : Invocation S × World → Prop
  | (.fresh _ _ script, w) => w.builtin? = builtins ∧
    ∀ s ∈ script.statements, ∀ p ∈ s.alternatives, ∀ c ∈ p.commands, c.Spares key builtins
  | (.between _ _ _ _ plan, w) => w.builtin? = builtins ∧ plan.Tries (Command.Spares key builtins)
  | (.running _ _ _ _ next crew, w) => w.builtin? = builtins ∧ (∀ c ∈ crew.pending, c.Spares key builtins) ∧
    ∀ fault text, (next fault text).Tries (Command.Spares key builtins)
  | (.ended _, _) => True

variable {builtins : String → Option Builtin}

theorem Spares.heedless (h : Spares key builtins x) : Heedless key x := by
  obtain ⟨call, w⟩ := x
  cases call with
  | running v canceled output p next crew =>
    obtain ⟨hBuiltins, hPending, -⟩ := h
    intro c rest hNext
    have hFirst : crew.pending = c :: rest := hNext
    obtain ⟨b, hFound, hAvoids⟩ := hPending c (hFirst ▸ List.mem_cons_self)
    exact Invoker.ignores_builtin (hBuiltins ▸ hFound) hAvoids
  | _ => trivial

theorem Spares.step (h : Spares key builtins x) (hAvoids : x.1.Avoids key) (hStep : Step programs C mayCall x y) :
    Spares key builtins y := by
  cases hStep with
  | @enter context m script w =>
    have hEnter : (context.enter w).2.builtin? = w.builtin? := by
      unfold Context.enter
      split <;> rfl
    exact ⟨hEnter.trans h.1, Plan.tries_statements h.2 m []⟩
  | @take v scope canceled stopped output p next w =>
    obtain ⟨hBuiltins, hTries⟩ := h
    cases hTries with
    | attempt hCommands hNext =>
      exact ⟨(congrArg Prod.fst (v.ground_traced p w)).trans hBuiltins, hCommands, hNext⟩
  | run hStep =>
    have hGround := (hStep.later hAvoids h.heedless).2.ground
    exact ⟨(congrArg Prod.fst hGround).trans h.1, fun c hc => h.2.1 c (hStep.pending c hc), h.2.2⟩
  | conclude hOver => exact ⟨h.1, h.2.2 _ _⟩
  | leave => trivial
  | stop => exact h

end Invocation

namespace Hiding

variable (H : Hiding) {S : Type}

/-- The script as far as it has come in both runs. -/
inductive Twins : Invocation S × World → Invocation S × World → Prop
  | fresh {context : Context} {m : Mode} {script : Script} {w : World} (hSound : H.Sound (context.enter w).2 .opened)
      (hStrict : (Plan.statements m [] script.statements).Strict) :
    Twins (.fresh context m script, w) (.fresh context m script, H.world w)
  | between {v : Invoker} {scope : Scope} {canceled stopped : Bool} {plan : Plan} {w : World}
      (hSound : H.Sound w scope) (hStrict : plan.Strict) :
    Twins (.between v scope canceled stopped plan, w) (.between v scope canceled stopped plan, H.world w)
  | running {v : Invoker} {canceled : Bool} {output : Output} {p : Pipeline} {next : Option Fault → Bytes → Plan}
      {crew crew' : Crew S} {w : World} (hStrict : (Plan.attempt output p next).Strict)
      (hCrews : H.Crews (crew.within w) (crew'.within (H.world w))) :
    Twins (.running v canceled output p next crew, w) (.running v canceled output p next crew', H.world w)
  | ended {result : Except Fault String} {w : World} : Twins (.ended result, w) (.ended result, H.world w)

variable {H} {programs : Host.Programs} {C : Calls} {mayCall : Nat → Prop} {stops : Prop}
  {x x' y : Invocation C.State × World}

theorem Crews.line {crew crew' : Crew S} (h : H.Crews crew crew') : crew'.line = H.line crew.line := by
  cases h
  rfl

theorem Crews.fits {crew crew' : Crew S} (h : H.Crews crew crew') : H.Fits crew.line := by
  cases h
  assumption

theorem Crews.verdict {crew crew' : Crew S} (h : H.Crews crew crew') : crew'.verdict = crew.verdict := by
  cases h with
  | intro hFits hWorkers => exact congrArg (Option.or _ <| Option.map _ ·) (verdict_board hFits.2)

theorem Crews.isOver {crew crew' : Crew S} (h : H.Crews crew crew') (hOver : crew.IsOver) : crew'.IsOver := by
  cases h with
  | intro hFits hWorkers =>
    obtain ⟨hNone, hPending⟩ := hOver
    dsimp only at hNone
    subst hNone
    cases hWorkers
    exact ⟨rfl, hPending⟩

theorem Twins.isStopped (h : H.Twins x x') : x'.1.isStopped = x.1.isStopped := by
  cases h with
  | running hStrict hCrews => exact (congrArg Line.stopped hCrews.line :)
  | _ => rfl

theorem Twins.step (h : H.Twins x x') (hAvoids : x.1.Avoids H.key) (hHeedless : Invocation.Heedless H.key x)
    (hGoes : Invocation.Goes programs C mayCall stops x y) :
    y.1.Doomed ∨ ∃ y', Invocation.Step programs C mayCall x' y' ∧ Invocation.Proceeds C mayCall stops x' y' ∧
      H.Twins y y' := by
  obtain ⟨hStep, -, hProceeds⟩ := hGoes
  cases h with
  | fresh hSound hStrict =>
    cases hStep with
    | enter =>
      refine .inr ⟨_, .enter, trivial, ?_⟩
      rw [Context.enter_world]
      exact .between hSound hStrict
  | @between v scope canceled stopped plan w hSound hStrict =>
    let phase : Invoker.Phase := ⟨w, scope, canceled, stopped⟩
    have hPhase : H.Sound phase.world phase.scope := hSound
    cases hStep with
    | @take _ _ _ _ output p next _ =>
      let opened : Invoker.Phase := { phase with world := v.traced p w }
      have hTraced : H.Sound opened.world opened.scope := Invoker.sound_traced hPhase p
      have hOpen : v.openLine p (H.phase opened) = H.line (v.openLine p opened) := Invoker.openLine_phase p opened
      refine .inr ⟨_, .take, trivial, ?_⟩
      rw [traced_world]
      refine .running hStrict ?_
      change H.Crews (.start p.commands (v.openLine p opened)) (.start p.commands (v.openLine p (H.phase opened)))
      rw [hOpen]
      exact .intro (Invoker.fits_openLine hTraced p) .nil
    | leave =>
      have hRestored := restored_world hPhase v.overlay
      refine .inr ⟨_, .leave, trivial, ?_⟩
      dsimp only [phase] at hRestored
      rw [hRestored]
      exact .ended
    | stop => exact .inr ⟨_, .stop, trivial, .between hSound hStrict⟩
  | @running v canceled output p next crew crew' w hStrict hCrews =>
    cases hStep with
    | run _ =>
      obtain ⟨event, hStep, hPrompt, hStops⟩ := hProceeds
      rcases hCrews.step hAvoids hHeedless hStep with hLost | ⟨next', hStep', hNext⟩
      · exact .inl ⟨hStrict, hLost.2⟩
      · refine .inr ⟨_, .run hStep', ⟨event, hStep', hCrews.prompt hPrompt, hStops⟩, ?_⟩
        have hWorld : next'.line.world = H.world _ := congrArg Line.world hNext.line
        rw [hWorld]
        refine .running hStrict ?_
        rw [← hWorld]
        exact hNext
    | conclude hOver =>
      have hLine := hCrews.line
      refine .inr ⟨_, .conclude (hCrews.isOver hOver), trivial, ?_⟩
      have hScope : crew'.line.scope = crew.line.scope := (congrArg Line.scope hLine :)
      have hStopped : crew'.line.stopped = crew.line.stopped := (congrArg Line.stopped hLine :)
      have hCaptured : crew'.line.captured = crew.line.captured := (congrArg Line.captured hLine :)
      have hVerdict : crew'.verdict = crew.verdict := hCrews.verdict
      rw [hScope, hStopped, hCaptured, hVerdict]
      exact .between hCrews.fits.1 (hStrict.next _ _)
  | ended => cases hStep

/-- What a script may do with the variable it may do without it, or it is bound to fail. -/
theorem Twins.course (h : H.Twins x x') (hAvoids : x.1.Avoids H.key)
    (hHeedless : ∀ y, ReflTransGen (Invocation.Goes programs C mayCall stops) x y → Invocation.Heedless H.key y)
    (hCourse : ReflTransGen (Invocation.Goes programs C mayCall stops) x y) :
    y.1.Avoids H.key ∧
      (y.1.Doomed ∨ ∃ y', ReflTransGen (Invocation.Goes programs C mayCall stops) x' y' ∧ H.Twins y y') := by
  induction hCourse with
  | refl => exact ⟨hAvoids, .inr ⟨x', .refl, h⟩⟩
  | @tail y z hBefore hLast ih =>
    have hStep := hLast.step
    obtain ⟨hAvoids, hKept⟩ := ih
    refine ⟨hStep.avoids hAvoids (hHeedless y hBefore), ?_⟩
    rcases hKept with hDoomed | ⟨y', hCourse', hTwins⟩
    · exact .inl (hStep.doomed hAvoids (hHeedless y hBefore) hDoomed)
    · rcases hTwins.step hAvoids (hHeedless y hBefore) hLast with hDoomed | ⟨z', hStep', hProceeds, hTwins'⟩
      · exact .inl hDoomed
      · refine .inr ⟨z', hCourse'.tail ⟨hStep', ?_, hProceeds⟩, hTwins'⟩
        rw [hTwins.isStopped, hTwins'.isStopped]
        exact hLast.stopped

end Hiding

namespace Script

section Courses

variable (programs : Host.Programs) (C : Calls) (mayCall : Nat → Prop) (stops : Prop) (context : Context) (m : Mode)
  (script : Script) (w : World)

/-- The script may end like this, if its stages take turns in some order. -/
def MayEnd (result : Except Fault String) (last : World) : Prop :=
  ReflTransGen (Invocation.Goes programs C mayCall stops) (.fresh context m script, w) (.ended result, last)

/-- There is no race: the order in which the stages take turns makes no difference in the end. -/
def Settled : Prop :=
  ∀ result last result' last', script.MayEnd programs C mayCall stops context m w result last →
    script.MayEnd programs C mayCall stops context m w result' last' → result' = result ∧ last' = last

/-- Whatever has happened before, each command ignores the variable `key` when it is launched. -/
def HeedlessThroughout (key : String) : Prop :=
  ∀ x, ReflTransGen (Invocation.Goes programs C mayCall stops) (.fresh context m script, w) x →
    Invocation.Heedless key x

end Courses

variable {programs : Host.Programs} {C : Calls} {mayCall : Nat → Prop} {stops : Prop} {context : Context} {m : Mode}
  {script : Script} {w : World}

theorem heedlessThroughout_of_builtins {key : String}
    (hCommands : ∀ s ∈ script.statements, ∀ p ∈ s.alternatives, ∀ c ∈ p.commands, c.Spares key w.builtin?) :
    script.HeedlessThroughout programs C mayCall stops context m w key := by
  intro x hCourse
  have hKept : x.1.Avoids key ∧ Invocation.Spares key w.builtin? x := by
    induction hCourse with
    | refl => exact ⟨trivial, rfl, hCommands⟩
    | tail _ hLast ih => exact ⟨hLast.1.avoids ih.1 ih.2.heedless, ih.2.step ih.1 hLast.1⟩
  exact hKept.2.heedless

/-- What a script may come to with a variable it may come to without it, unless it failed. -/
theorem mayEnd_without {H : Hiding} (hHeedless : script.HeedlessThroughout programs C mayCall stops context m w H.key)
    (hAlone : ∀ s ∈ script.statements, s.fallbacks = [] ∧ s.first.ignore = false)
    (hSound : H.Sound (context.enter w).2 .opened) {text : String} {last : World}
    (h : script.MayEnd programs C mayCall stops context m w (.ok text) last) :
    script.MayEnd programs C mayCall stops context m (H.world w) (.ok text) (H.world last) := by
  have hTwins : H.Twins (S := C.State) (.fresh context m script, w) (.fresh context m script, H.world w) :=
    .fresh hSound (Plan.strict_statements hAlone m [])
  obtain ⟨-, hDoomed | ⟨y, hCourse, hEnd⟩⟩ := hTwins.course trivial hHeedless h
  · obtain ⟨fault, hFault⟩ := hDoomed
    cases hFault
  · cases hEnd
    exact hCourse

end Script

end Pipework
