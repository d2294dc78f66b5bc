import Pipework.Text.Utf8

/-!
# Runs

A run is a computation over a state that can wait. While it waits, its surroundings may go on with
the state; they resume it with the state as it is then. A run that is stopped at every wait ends.
-/

namespace Pipework

/-- What a run waits for: to be stopped, for time to pass or not, for the end of a pipe, for room in
one, which comes only when its reader goes away, or for a consumer. -/
inductive Wait where
  | stop
  | never
  | input (pipe : Nat)
  | room (pipe : Nat)
  | offer (data : Bytes) (endless : Bool)
deriving DecidableEq, Repr

inductive Signal where
  | ready
  /-- The run is stopped, and the consumer of its output is gone, who took `taken` bytes of what was
  offered last. -/
  | stop (taken : Nat)
deriving DecidableEq, Repr

namespace Signal

def isStop : Signal → Bool
  | .ready => false
  | .stop _ => true

def taken : Signal → Nat
  | .ready => 0
  | .stop taken => taken

end Signal

inductive Run (σ α : Type) where
  | done (result : α) (state : σ)
  | wait (why : Wait) (state : σ) (resume : Signal → σ → Run σ α)

namespace Run

variable {σ τ α β : Type}

def bind : Run σ α → (α → σ → Run σ β) → Run σ β
  | .done result state, f => f result state
  | .wait why state resume, f => .wait why state fun signal state => (resume signal state).bind f

def state : Run σ α → σ
  | .done _ state => state
  | .wait _ state _ => state

def isDone : Run σ α → Bool
  | .done _ _ => true
  | .wait _ _ _ => false

def finish : Run σ α → α × σ
  | .done result state => (result, state)
  | .wait _ state resume => (resume (.stop 0) state).finish

def complete : Run σ α → α × σ
  | .done result state => (result, state)
  | .wait _ state resume => (resume .ready state).complete

def within (get : σ → τ) (put : τ → Signal → σ → σ) : Run σ α → Run τ (α × σ)
  | .done result state => .done (result, state) (get state)
  | .wait why state resume =>
    .wait why (get state) fun signal part => (resume signal (put part signal state)).within get put

def embed (get : τ → σ) (put : σ → τ → τ) (whole : τ) : Run σ α → Run τ α
  | .done result state => .done result (put state whole)
  | .wait why state resume =>
    .wait why (put state whole) fun signal whole =>
      (resume signal (get whole)).embed get put whole

@[simp] theorem bind_done (result : α) (state : σ) (f : α → σ → Run σ β) :
    (Run.done result state).bind f = f result state := rfl

theorem bind_assoc {γ : Type} (r : Run σ α) (f : α → σ → Run σ β) (g : β → σ → Run σ γ) :
    (r.bind f).bind g = r.bind fun result state => (f result state).bind g := by
  induction r with
  | done result state => rfl
  | wait why state resume ih =>
    exact congrArg (Run.wait why state) (funext fun signal => funext fun state => ih signal state)

@[simp] theorem finish_bind (r : Run σ α) (f : α → σ → Run σ β) :
    (r.bind f).finish = (f r.finish.1 r.finish.2).finish := by
  induction r with
  | done result state => rfl
  | wait why state resume ih => exact ih (.stop 0) state

end Run

end Pipework
