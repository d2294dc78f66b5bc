import Pipework.Engine

/-!
# One stage after the other

The engine goes on with the stages of a pipeline in passes, and in rounds of passes between which time goes by. Each
does the same to one stage after the other. So what holds of the stages however often this is done comes from what
holds of it for a single stage.
-/

namespace Pipework.Activity

def sweep (f : Activity → Line → Option Activity × Line) : List Activity → Line → List Activity × Line
  | [], line => ([], line)
  | a :: rest, line =>
    ((f a line).1.toList ++ (sweep f rest (f a line).2).1, (sweep f rest (f a line).2).2)

def tick : Activity → Line → Option Activity × Line
  | .waiting .stop resume, line => lapse (resume .ready line)
  | a, line => (some a, line)

def halt : Activity → Line → Option Activity × Line
  | .fresh start, line => (none, (start line).finish.2)
  | .waiting _ resume, line => (none, (resume (.stop 0) line).finish.2)

theorem pass_eq_sweep : pass = sweep proceed := by
  funext acts line
  induction acts generalizing line with
  | nil => rfl
  | cons a rest ih =>
    rw [sweep, ← ih]
    rfl

theorem elapse_eq_sweep : elapse = sweep tick := by
  funext acts line
  induction acts generalizing line with
  | nil => rfl
  | cons a rest ih =>
    rw [sweep, ← ih]
    cases a with
    | fresh start => rfl
    | waiting why resume => cases why <;> rfl

theorem stopAll_eq_sweep (acts : List Activity) (line : Line) : stopAll acts line = (sweep halt acts line).2 := by
  induction acts generalizing line with
  | nil => rfl
  | cons a rest ih =>
    rw [sweep, ← ih]
    cases a <;> rfl

/-- What is known of going on with stages if `Q` is known of going on with one. -/
structure Stepwise (Q : (Activity → Line → Option Activity × Line) → Prop)
    (P : (List Activity → Line → List Activity × Line) → Prop) : Prop where
  sweep {f : Activity → Line → Option Activity × Line} (hf : Q f) : P (sweep f)
  keep : P fun acts line => (acts, line)
  comp {f g : List Activity → Line → List Activity × Line} (hf : P f) (hg : P g) :
    P fun acts line => g (f acts line).1 (f acts line).2
  /-- How often something is done may depend on how many stages there are. -/
  count {f : Nat → List Activity → Line → List Activity × Line} (hf : ∀ n, P (f n)) :
    P fun acts line => f acts.length acts line

namespace Stepwise

variable {Q : (Activity → Line → Option Activity × Line) → Prop}
  {P : (List Activity → Line → List Activity × Line) → Prop} (h : Stepwise Q P)

include h

theorem settle (hProceed : Q proceed) : P settle := by
  have hPass : P pass := by
    rw [pass_eq_sweep]
    exact h.sweep hProceed
  have hPasses (n : Nat) : P (passes n) := by
    induction n with
    | zero => exact h.keep
    | succ n ih => exact h.comp hPass ih
  exact h.count fun n => hPasses (2 * n + 1)

theorem outlast (hProceed : Q proceed) (hTick : Q tick) : P outlast := by
  have hElapse : P elapse := by
    rw [elapse_eq_sweep]
    exact h.sweep hTick
  have hRounds (n : Nat) : P (rounds n) := by
    induction n with
    | zero => exact h.keep
    | succ n ih => exact h.comp (h.comp hElapse (h.settle hProceed)) ih
  exact h.count fun n => hRounds (n + 1)

end Stepwise

end Pipework.Activity
