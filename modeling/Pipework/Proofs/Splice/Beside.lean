import Mathlib.Logic.Function.Basic
import Pipework.Proofs.Flags.InStep
import Pipework.Proofs.Stage.Launch

/-!
# Stages side by side

A stage of one pipeline and the same stage of another go side by side if the pipes at its two ends are the same, by
whatever numbers the pipelines have for them. It does the same in both: each of its actions has the same answer, and
leaves the same behind but for what has been traced.
-/

namespace Pipework

namespace Run

variable {σ τ α β : Type}

/-- The second run waits when the first does, and ends with the same result. The states are related by `R` at each
wait and in the end, if that is so each time the runs are resumed; the waits are related by `W`. -/
inductive Beside (R : σ → σ → Prop) (W : Wait → Wait → Prop) : Run σ α → Run σ α → Prop
  | done {a : α} {state state' : σ} (h : R state state') : Beside R W (.done a state) (.done a state')
  | wait {why why' : Wait} {state state' : σ} {resume resume' : Signal → σ → Run σ α} (h : R state state')
      (hWhy : W why why')
      (hResume : ∀ signal state state', R state state' → Beside R W (resume signal state) (resume' signal state')) :
      Beside R W (.wait why state resume) (.wait why' state' resume')

namespace Beside

variable {R : σ → σ → Prop} {W : Wait → Wait → Prop} {r r' : Run σ α}

theorem bind {f f' : α → σ → Run σ β} (h : r.Beside R W r')
    (hf : ∀ a state state', R state state' → (f a state).Beside R W (f' a state')) :
    (r.bind f).Beside R W (r'.bind f') := by
  induction h with
  | done h => exact hf _ _ _ h
  | wait h hWhy _ ih => exact .wait h hWhy ih

theorem ite {p : Prop} {_inst _inst' : Decidable p} {q q' : Run σ α} (h : p → r.Beside R W r')
    (h' : ¬p → q.Beside R W q') : (@ite _ p _inst r q).Beside R W (@ite _ p _inst' r' q') := by
  by_cases hp : p
  · rw [if_pos hp, if_pos hp]
    exact h hp
  · rw [if_neg hp, if_neg hp]
    exact h' hp

theorem result {a a' : α} {state state' : σ} (h : Run.Beside R W (.done a state) (.done a' state')) : a' = a := by
  cases h
  rfl

theorem mono {W' : Wait → Wait → Prop} (h : r.Beside R W r') (hLess : ∀ why why', W why why' → W' why why') :
    r.Beside R W' r' := by
  induction h with
  | done h => exact .done h
  | wait h hWhy _ ih => exact .wait h (hLess _ _ hWhy) ih

theorem complete (h : r.Beside R W r') : r'.complete.1 = r.complete.1 ∧ R r.complete.2 r'.complete.2 := by
  induction h with
  | done h => exact ⟨rfl, h⟩
  | wait h _ _ ih => exact ih .ready _ _ h

theorem finish (h : r.Beside R W r') : r'.finish.1 = r.finish.1 ∧ R r.finish.2 r'.finish.2 := by
  induction h with
  | done h => exact ⟨rfl, h⟩
  | wait h _ _ ih => exact ih (.stop 0) _ _ h

theorem symm {R' : σ → σ → Prop} {W' : Wait → Wait → Prop}
    (hR : ∀ state state', R state state' → R' state' state)
    (hR' : ∀ state state', R' state' state → R state state') (hW : ∀ why why', W why why' → W' why' why)
    (h : r.Beside R W r') : r'.Beside R' W' r := by
  induction h with
  | done h => exact .done (hR _ _ h)
  | wait h hWhy _ ih =>
    exact .wait (hR _ _ h) (hW _ _ hWhy) fun signal state state' h => ih signal _ _ (hR' _ _ h)

theorem yields {touch : Signal → σ → σ} (hW : ∀ why why', W why why' → why' = why)
    (hTouch : ∀ signal state state', R state state' → R (touch signal state) (touch signal state'))
    (h : r.Beside R W r') {story : List (Wait × Signal)} {a : α} {state : σ} (hYields : r.Yields touch story a state) :
    ∃ state', r'.Yields touch story a state' ∧ R state state' := by
  induction h generalizing story with
  | done h =>
    cases hYields
    exact ⟨_, .done, h⟩
  | wait h hWhy _ ih =>
    cases hYields with
    | wait hRest =>
      obtain ⟨last, hYields', hLast⟩ := ih _ _ _ (hTouch _ _ _ h) hRest
      obtain rfl := hW _ _ hWhy
      exact ⟨last, .wait hYields', hLast⟩

theorem isDone (h : r.Beside R W r') : r'.isDone = r.isDone := by cases h <;> rfl

theorem within {T : τ → τ → Prop} {get get' : σ → τ} {put : τ → Signal → σ → σ} (h : r.Beside R W r')
    (hGet : ∀ state state', R state state' → T (get state) (get' state'))
    (hPut : ∀ part part' signal state state', T part part' → R state state' →
      R (put part signal state) (put part' signal state'))
    {f f' : α × σ → τ → Run τ β}
    (hf : ∀ a state state', R state state' →
      (f (a, state) (get state)).Beside T W (f' (a, state') (get' state'))) :
    ((r.within get put).bind f).Beside T W ((r'.within get' put).bind f') := by
  induction h with
  | done h => exact hf _ _ _ h
  | wait h hWhy _ ih =>
    exact .wait (hGet _ _ h) hWhy fun signal part part' hPart => ih signal _ _ (hPut _ _ signal _ _ hPart h)

theorem embed {T : τ → τ → Prop} {get : τ → σ} {put : σ → τ → τ} (h : r.Beside R W r')
    (hGet : ∀ whole whole', T whole whole' → R (get whole) (get whole'))
    (hPut : ∀ state state' whole whole', R state state' → T whole whole' → T (put state whole) (put state' whole'))
    {whole whole' : τ} (hWhole : T whole whole') :
    (r.embed get put whole).Beside T W (r'.embed get put whole') := by
  induction h generalizing whole whole' with
  | done h => exact .done (hPut _ _ _ _ h hWhole)
  | wait h hWhy _ ih =>
    exact .wait (hPut _ _ _ _ h hWhole) hWhy fun signal whole whole' hWhole => ih signal _ _ (hGet _ _ hWhole) hWhole

end Beside

end Run

namespace Wait

def moved (e : Nat → Nat) : Wait → Wait
  | .input i => .input (e i)
  | .room i => .room (e i)
  | why => why

/-- A wait that is seen from outside of a pipeline. -/
def Outward (why why' : Wait) : Prop := why' = why ∧ Invoker.outerWait why = why

def Moved (e : Nat → Nat) (why why' : Wait) : Prop := why' = why.moved e

theorem Outward.symm {why why' : Wait} (h : Outward why why') : Outward why' why := by
  obtain ⟨rfl, hOuter⟩ := h
  exact ⟨rfl, hOuter⟩

theorem Outward.moved {why why' : Wait} (h : Outward why why') (e : Nat → Nat) : Moved e why why' := by
  obtain ⟨rfl, hOuter⟩ := h
  cases why' with
  | input i => cases hOuter
  | room i => cases hOuter
  | _ => rfl

end Wait

namespace World

def withTrace (w : World) (t : Bytes) : World := { w with trace := t }

/-- Another world. What had been traced before was `ts.1` in the one and `ts.2` in the other, and it is the same
since. -/
def Retraced (ts : Bytes × Bytes) (w w' : World) : Prop :=
  ∃ t, w.trace = ts.1 ++ t ∧ w' = w.withTrace (ts.2 ++ t)

theorem Retraced.map {ts : Bytes × Bytes} {w w' : World} (h : w.Retraced ts w') {f : World → World}
    (hf : ∀ w t, f (w.withTrace t) = (f w).withTrace t) : (f w).Retraced ts (f w') := by
  obtain ⟨t, hTrace, rfl⟩ := h
  have hKept : f (w.withTrace w.trace) = (f w).withTrace w.trace := hf w w.trace
  exact ⟨t, (congrArg World.trace hKept).trans hTrace, hf w _⟩

theorem serve_withTrace (w : World) (t : Bytes) (storage : Storage) (request : FileRequest) :
    (w.withTrace t).serve storage request =
      ((w.serve storage request).1, (w.serve storage request).2.withTrace t) := by
  obtain ⟨builtins, wrappers, inMemory, memory, host, overlays, input, output, errors, trace, mocks⟩ := w
  cases storage with
  | host => rfl
  | shell =>
    cases inMemory with
    | false => rfl
    | true =>
      simp only [serve, withTrace, if_true]
      cases serveMemory memory request <;> rfl

theorem Retraced.serve {ts : Bytes × Bytes} {w w' : World} (h : w.Retraced ts w') (storage : Storage)
    (request : FileRequest) : (w'.serve storage request).1 = (w.serve storage request).1 ∧
      (w.serve storage request).2.Retraced ts (w'.serve storage request).2 := by
  have hServe (w : World) (t : Bytes) := w.serve_withTrace t storage request
  refine ⟨?_, h.map (f := fun w => (w.serve storage request).2) fun w t => congrArg Prod.snd (hServe w t)⟩
  obtain ⟨t, -, rfl⟩ := h
  rw [hServe]

theorem unseen_withTrace (t : Bytes) : Unseen fun w => w.withTrace t where
  serve w storage request := w.serve_withTrace t storage request
  isHeld w storage := by cases storage <;> rfl

end World

namespace Line

/-- Another pipeline, whose pipes are those of `l` by the numbers that `e` gives them, as far as `K` holds of them. -/
inductive Alike (ts : Bytes × Bytes) (e : Nat → Nat) (K : Nat → Prop) (l : Line) : Line → Prop
  | intro {w : World} {pipes : List Feed} {broken : List Nat} (hWorld : l.world.Retraced ts w)
      (hPipes : ∀ i, K i → pipes[e i]? = l.pipes[i]?) (hBroken : ∀ i, broken.contains (e i) = l.broken.contains i) :
      Alike ts e K l { l with world := w, pipes := pipes, broken := broken }

/-- Another pipeline with the same pipes by other numbers. -/
abbrev Beside (ts : Bytes × Bytes) (e : Nat → Nat) : Line → Line → Prop := Alike ts e fun _ => True

namespace Alike

variable {ts : Bytes × Bytes} {e : Nat → Nat} {K : Nat → Prop} {l l' : Line} (h : Alike ts e K l l')

include h

theorem world : l.world.Retraced ts l'.world := by
  cases h with
  | intro hWorld => exact hWorld

theorem pipe {i : Nat} (hKept : K i) : l'.pipe (e i) = l.pipe i := by
  cases h with
  | intro _ hPipes => simp [Line.pipe, List.getD_eq_getElem?_getD, hPipes i hKept]

theorem pipes {i : Nat} (hKept : K i) : l'.pipes[e i]? = l.pipes[i]? := by
  cases h with
  | intro _ hPipes => exact hPipes i hKept

theorem broken (i : Nat) : l'.broken.contains (e i) = l.broken.contains i := by
  cases h with
  | intro _ _ hBroken => exact hBroken i

theorem canceled : l'.canceled = l.canceled := by
  cases h
  rfl

theorem stopped : l'.stopped = l.stopped := by
  cases h
  rfl

theorem board : l'.board = l.board := by
  cases h
  rfl

theorem captured : l'.captured = l.captured := by
  cases h
  rfl

theorem update (f : World → World) (hf : ∀ w t, f (w.withTrace t) = (f w).withTrace t) :
    Alike ts e K { l with world := f l.world } { l' with world := f l'.world } := by
  cases h with
  | intro hWorld hPipes hBroken => exact .intro (hWorld.map hf) hPipes hBroken

theorem replace {w w' : World} (hWorld : w.Retraced ts w') :
    Alike ts e K { l with world := w } { l' with world := w' } := by
  cases h with
  | intro _ hPipes hBroken => exact .intro hWorld hPipes hBroken

theorem setPipe (he : e.Injective) {i : Nat} (hKept : K i) (f : Feed) :
    Alike ts e K (l.setPipe i f) (l'.setPipe (e i) f) := by
  cases h with
  | @intro w pipes broken hWorld hPipes hBroken =>
    refine .intro hWorld (fun j hj => ?_) hBroken
    have hLength : pipes.length ≤ e i ↔ l.pipes.length ≤ i := by
      rw [← List.getElem?_eq_none_iff, ← List.getElem?_eq_none_iff, hPipes i hKept]
    simp only [Line.setPipe, List.getElem?_set, he.eq_iff, hPipes j hj, ← Nat.not_le, hLength]

theorem capture (data : Bytes) :
    Alike ts e K { l with captured := l.captured ++ data } { l' with captured := l'.captured ++ data } := by
  cases h with
  | intro hWorld hPipes hBroken => exact .intro hWorld hPipes hBroken

theorem assign (id : Nat) (key value : String) :
    Alike ts e K
      { l with
        world := l.world.setOverlay id (l.scope.assign (l.world.overlay id) key (some value)).2
        scope := (l.scope.assign (l.world.overlay id) key (some value)).1 }
      { l' with
        world := l'.world.setOverlay id (l'.scope.assign (l'.world.overlay id) key (some value)).2
        scope := (l'.scope.assign (l'.world.overlay id) key (some value)).1 } := by
  cases h with
  | intro hWorld hPipes hBroken =>
    obtain ⟨t, hTrace, rfl⟩ := hWorld
    exact .intro ⟨t, hTrace, rfl⟩ hPipes hBroken

theorem used {p : Prop} [Decidable p] (n : Nat) :
    Alike ts e K (if p then l.dropInput n else l) (if p then l'.dropInput n else l') := by
  by_cases hp : p
  · rw [if_pos hp, if_pos hp]
    exact h.update (fun w => { w with input := w.input.drop n }) fun _ _ => rfl
  · rw [if_neg hp, if_neg hp]
    exact h

theorem stop : Alike ts e K l.stop l'.stop := by
  cases h with
  | intro hWorld hPipes hBroken => exact .intro hWorld hPipes hBroken

theorem cancel : Alike ts e K { l with canceled := true } { l' with canceled := true } := by
  cases h with
  | intro hWorld hPipes hBroken => exact .intro hWorld hPipes hBroken

end Alike

end Line

end Pipework
