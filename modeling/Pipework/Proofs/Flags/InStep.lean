import Pipework.Proofs.Stage.Frame

/-!
# Runs that go in step

The second of two runs may lack something that the first has, and goes in step with it: it waits when the first
waits, for the same thing, and ends alike. The first may lose step, but then it is bound to end badly,
whatever happens to it. What happens to a run is its story: what it waited for, and how it was resumed.
-/

namespace Pipework.Run

variable {σ τ α β : Type}

/-- Each time the run is resumed it gets from the state `start` in which that happens to one that `R` allows. -/
def Advances (R : σ → σ → Prop) (start : σ) : Run σ α → Prop
  | .done _ state => R start state
  | .wait _ state resume => R start state ∧ ∀ signal state, (resume signal state).Advances R state

/-- Resumed in states that are lost, the run ends as `bad` says. -/
def Doomed (lost : σ → Prop) (bad : α → σ → Prop) : Run σ α → Prop
  | .done a state => bad a state
  | .wait _ state resume => lost state ∧ ∀ signal state, lost state → (resume signal state).Doomed lost bad

/-- The run comes to the result `a` in the end, if its waits end as `story` says. When it is resumed, its state is as
`touch` leaves it. -/
inductive Yields (touch : Signal → σ → σ) : Run σ α → (story : List (Wait × Signal)) → (a : α) → σ → Prop
  | done {a : α} {state : σ} : Yields touch (.done a state) [] a state
  | wait {why : Wait} {signal : Signal} {state last : σ} {resume : Signal → σ → Run σ α}
      {story : List (Wait × Signal)} {a : α} (h : Yields touch (resume signal (touch signal state)) story a last) :
      Yields touch (.wait why state resume) ((why, signal) :: story) a last

/-- The states of the first of two runs. -/
structure Shadow (σ : Type) where
  /-- The state of the second run. -/
  look : σ → σ
  Fits : σ → Prop
  /-- The first run is bound to end badly. -/
  Lost : σ → Prop

inductive InStep (S : Shadow σ) (bad : α → σ → Prop) : Run σ α → Run σ α → Prop
  | done {a : α} {state : σ} (hFits : S.Fits state) : InStep S bad (.done a state) (.done a (S.look state))
  | wait {why : Wait} {state : σ} {resume resume' : Signal → σ → Run σ α} (hFits : S.Fits state)
      (hResume : ∀ signal state, S.Fits state →
        InStep S bad (resume signal state) (resume' signal (S.look state))) :
    InStep S bad (.wait why state resume) (.wait why (S.look state) resume')
  | lost {r r' : Run σ α} (h : r.Doomed S.Lost bad) : InStep S bad r r'

section Advances

variable {R : σ → σ → Prop} (hTrans : ∀ a b c, R a b → R b c → R a c) {start : σ} {r : Run σ α}

theorem Leaves.advances {γ : Type} {f : σ → γ} (h : r.Leaves f (f start)) :
    r.Advances (fun s s' => f s' = f s) start := by
  induction r generalizing start with
  | done a state => exact h
  | wait why state resume ih => exact ⟨h.1, fun signal state => ih signal state (h.2 signal state)⟩

theorem Advances.mono {R' : σ → σ → Prop} (hLess : ∀ s s', R s s' → R' s s') (h : r.Advances R start) :
    r.Advances R' start := by
  induction r generalizing start with
  | done a state => exact hLess _ _ h
  | wait why state resume ih => exact ⟨hLess _ _ h.1, fun signal state => ih signal state (h.2 signal state)⟩

include hTrans

theorem Advances.after {first : σ} (hFirst : R first start) (h : r.Advances R start) : r.Advances R first := by
  cases r with
  | done a state => exact hTrans _ _ _ hFirst h
  | wait why state resume => exact ⟨hTrans _ _ _ hFirst h.1, h.2⟩

theorem Advances.bind {f : α → σ → Run σ β} (h : r.Advances R start) (hf : ∀ a state, (f a state).Advances R state) :
    (r.bind f).Advances R start := by
  induction r generalizing start with
  | done a state =>
    have hStep : R start state := h
    exact (hf a state).after hTrans hStep
  | wait why state resume ih => exact ⟨h.1, fun signal state => ih signal state (h.2 signal state)⟩

theorem Advances.complete (h : r.Advances R start) : R start r.complete.2 := by
  induction r generalizing start with
  | done a state => exact h
  | wait why state resume ih => exact hTrans _ _ _ h.1 (ih .ready state (h.2 .ready state))

theorem Advances.finish (h : r.Advances R start) : R start r.finish.2 := by
  induction r generalizing start with
  | done a state => exact h
  | wait why state resume ih => exact hTrans _ _ _ h.1 (ih (.stop 0) state (h.2 (.stop 0) state))

omit hTrans

theorem Advances.doomed {lost : σ → Prop} (hLasting : ∀ s s', R s s' → lost s → lost s') (h : r.Advances R start)
    (hLost : lost start) : r.Doomed lost fun _ => lost := by
  induction r generalizing start with
  | done a state => exact hLasting _ _ h hLost
  | wait why state resume ih =>
    exact ⟨hLasting _ _ h.1 hLost, fun signal state hState => ih signal state (h.2 signal state) hState⟩

end Advances

section Doomed

variable {lost : σ → Prop} {bad : α → σ → Prop} {r : Run σ α}

theorem Doomed.bind {bad' : β → σ → Prop} {f : α → σ → Run σ β} (h : r.Doomed lost bad)
    (hf : ∀ a state, bad a state → (f a state).Doomed lost bad') : (r.bind f).Doomed lost bad' := by
  induction r with
  | done a state => exact hf a state h
  | wait why state resume ih =>
    exact ⟨h.1, fun signal state hState => ih signal state (h.2 signal state hState)⟩

theorem Doomed.complete (h : r.Doomed lost fun _ => lost) : lost r.complete.2 := by
  induction r with
  | done a state => exact h
  | wait why state resume ih => exact ih .ready state (h.2 .ready state h.1)

theorem Doomed.finish (h : r.Doomed lost fun _ => lost) : lost r.finish.2 := by
  induction r with
  | done a state => exact h
  | wait why state resume ih => exact ih (.stop 0) state (h.2 (.stop 0) state h.1)

theorem Doomed.within {lost' : τ → Prop} {get : σ → τ} {put : τ → Signal → σ → σ} (h : r.Doomed lost bad)
    (hGet : ∀ state, lost state → lost' (get state))
    (hPut : ∀ part signal state, lost state → lost (put part signal state)) :
    (r.within get put).Doomed lost' fun x _ => bad x.1 x.2 := by
  induction r with
  | done a state => exact h
  | wait why state resume ih =>
    exact ⟨hGet state h.1, fun signal part _ => ih signal _ (h.2 signal _ (hPut part signal state h.1))⟩

theorem Doomed.of_yields (h : r.Doomed lost bad) {touch : Signal → σ → σ}
    (hTouch : ∀ signal state, lost state → lost (touch signal state)) {story : List (Wait × Signal)} {a : α} {state : σ}
    (hYields : r.Yields touch story a state) : bad a state := by
  induction hYields with
  | done => exact h
  | wait _ ih => exact ih (h.2 _ _ (hTouch _ _ h.1))

end Doomed

namespace InStep

variable {S : Shadow σ} {bad : α → σ → Prop} {r r' : Run σ α}

theorem of_done {a : α} {state state' : σ} (hFits : S.Fits state) (hLook : state' = S.look state) :
    (Run.done a state).InStep S bad (.done a state') :=
  hLook ▸ .done hFits

theorem of_wait {why : Wait} {state state' : σ} {resume resume' : Signal → σ → Run σ α} (hFits : S.Fits state)
    (hLook : state' = S.look state)
    (hResume : ∀ signal state, S.Fits state → (resume signal state).InStep S bad (resume' signal (S.look state))) :
    (Run.wait why state resume).InStep S bad (.wait why state' resume') :=
  hLook ▸ .wait hFits hResume

theorem bind {bad' : β → σ → Prop} {f f' : α → σ → Run σ β} (h : r.InStep S bad r')
    (hf : ∀ a state, S.Fits state → (f a state).InStep S bad' (f' a (S.look state)))
    (hBad : ∀ a state, bad a state → (f a state).Doomed S.Lost bad') :
    (r.bind f).InStep S bad' (r'.bind f') := by
  induction h with
  | done hFits => exact hf _ _ hFits
  | wait hFits _ ih => exact .wait hFits ih
  | lost h => exact .lost (h.bind hBad)

theorem complete (h : r.InStep S (fun _ => S.Lost) r') :
    S.Lost r.complete.2 ∨ S.Fits r.complete.2 ∧ r'.complete = (r.complete.1, S.look r.complete.2) := by
  induction h with
  | done hFits => exact .inr ⟨hFits, rfl⟩
  | @wait _ state _ _ hFits _ ih => exact ih .ready state hFits
  | lost h => exact .inl h.complete

theorem finish (h : r.InStep S (fun _ => S.Lost) r') :
    S.Lost r.finish.2 ∨ S.Fits r.finish.2 ∧ r'.finish = (r.finish.1, S.look r.finish.2) := by
  induction h with
  | done hFits => exact .inr ⟨hFits, rfl⟩
  | @wait _ state _ _ hFits _ ih => exact ih (.stop 0) state hFits
  | lost h => exact .inl h.finish

theorem within_bind {T : Shadow τ} {bad' : β → τ → Prop} {get : σ → τ} {put : τ → Signal → σ → σ}
    {f f' : α × σ → τ → Run τ β} (h : r.InStep S bad r')
    (hGet : ∀ state, get (S.look state) = T.look (get state))
    (hPut : ∀ part signal state, put (T.look part) signal (S.look state) = S.look (put part signal state))
    (hFits : ∀ state, S.Fits state → T.Fits (get state))
    (hFits' : ∀ part signal state, T.Fits part → S.Fits state → S.Fits (put part signal state))
    (hLost : ∀ state, S.Lost state → T.Lost (get state))
    (hLost' : ∀ part signal state, S.Lost state → S.Lost (put part signal state))
    (hf : ∀ a state, S.Fits state →
      (f (a, state) (get state)).InStep T bad' (f' (a, S.look state) (T.look (get state))))
    (hBad : ∀ a state part, bad a state → (f (a, state) part).Doomed T.Lost bad') :
    ((r.within get put).bind f).InStep T bad' ((r'.within get put).bind f') := by
  induction h with
  | @done a state hEnd =>
    change InStep T bad' (f (a, state) (get state)) (f' (a, S.look state) (get (S.look state)))
    rw [hGet]
    exact hf a state hEnd
  | @wait why state resume resume' hEnd _ ih =>
    refine .of_wait (hFits state hEnd) (hGet state) fun signal part hPart => ?_
    have hNext := ih signal (put part signal state) (hFits' part signal state hPart hEnd)
    rw [← hPut part signal state] at hNext
    exact hNext
  | lost h => exact .lost ((h.within hLost hLost').bind fun x part hx => hBad x.1 x.2 part hx)

end InStep

section Yields

variable {touch : Signal → σ → σ} {r : Run σ α} {story : List (Wait × Signal)} {state : σ}

theorem yields_done {a b : α} {last : σ} :
    (Run.done a state).Yields touch story b last ↔ story = [] ∧ b = a ∧ last = state := by
  constructor
  · intro h
    cases h
    exact ⟨rfl, rfl, rfl⟩
  · rintro ⟨rfl, rfl, rfl⟩
    exact .done

theorem yields_finish (h : r.isDone = true) : r.Yields touch [] r.finish.1 r.finish.2 := by
  cases r with
  | done a state => exact .done
  | wait why state resume => cases h

theorem yields_bind {f : α → σ → Run σ β} {b : β} {last : σ} :
    (r.bind f).Yields touch story b last ↔ ∃ first rest a middle,
      story = first ++ rest ∧ r.Yields touch first a middle ∧ (f a middle).Yields touch rest b last := by
  constructor
  · intro h
    induction r generalizing story with
    | done a state => exact ⟨[], story, a, state, rfl, .done, h⟩
    | wait why state resume ih =>
      cases h with
      | @wait _ signal _ _ _ story _ hRest =>
        obtain ⟨first, rest, a, middle, rfl, hFirst, hLast⟩ := ih _ _ hRest
        exact ⟨_ :: first, rest, a, middle, rfl, .wait hFirst, hLast⟩
  · rintro ⟨first, rest, a, middle, rfl, hFirst, hLast⟩
    induction hFirst with
    | done => exact hLast
    | wait _ ih => exact .wait (ih hLast)

theorem yields_within {get : σ → τ} {put : τ → Signal → σ → σ} {part : Signal → τ → τ} {x : α × σ} {last : τ} :
    (r.within get put).Yields part story x last ↔
      r.Yields (fun signal state => put (part signal (get state)) signal state) story x.1 x.2 ∧ last = get x.2 := by
  constructor
  · intro h
    induction r generalizing story with
    | done a state =>
      cases h
      exact ⟨.done, rfl⟩
    | wait why state resume ih =>
      cases h with
      | wait hRest =>
        obtain ⟨hYields, hLast⟩ := ih _ _ hRest
        exact ⟨.wait hYields, hLast⟩
  · obtain ⟨a, state⟩ := x
    rintro ⟨hYields, rfl⟩
    dsimp only at hYields ⊢
    induction hYields with
    | done => exact .done
    | wait _ ih => exact .wait ih

theorem Advances.of_yields {R : σ → σ → Prop} (hTrans : ∀ a b c, R a b → R b c → R a c)
    (hTouch : ∀ signal state, R state (touch signal state)) {start : σ} (h : r.Advances R start) {a : α}
    (hYields : r.Yields touch story a state) : R start state := by
  induction hYields generalizing start with
  | done => exact h
  | wait _ ih => exact hTrans _ _ _ (hTrans _ _ _ h.1 (hTouch _ _)) (ih (h.2 _ _))

end Yields

/-- Of two runs with the same story, the second comes to what the first does, and the first to what the second does if
it is `sure` not to lose step. -/
structure Tracks (touch : Signal → σ → σ) (S : Shadow σ) (sure : Prop) (bad : α → σ → Prop) (r r' : Run σ α) :
    Prop where
  forth : ∀ {story : List (Wait × Signal)} {a : α} {state : σ}, r.Yields touch story a state →
    bad a state ∨ S.Fits state ∧ r'.Yields touch story a (S.look state)
  back : sure → ∀ {story : List (Wait × Signal)} {a : α} {state' : σ}, r'.Yields touch story a state' →
    ∃ state, r.Yields touch story a state ∧ S.Fits state ∧ state' = S.look state

/-- A touch that the second of two runs does not see. -/
structure Shadow.Kept (S : Shadow σ) (touch : Signal → σ → σ) : Prop where
  fits : ∀ signal state, S.Fits state → S.Fits (touch signal state)
  look : ∀ signal state, S.look (touch signal state) = touch signal (S.look state)
  lost : ∀ signal state, S.Lost state → S.Lost (touch signal state)

variable {touch : Signal → σ → σ} {S : Shadow σ} {sure : Prop} {bad : α → σ → Prop} {r r' : Run σ α}

theorem InStep.tracks (h : r.InStep S bad r') (hKept : S.Kept touch) (hLost : sure → ∀ state, ¬S.Lost state)
    (hBad : sure → ∀ a state, ¬bad a state) : r.Tracks touch S sure bad r' where
  forth {story a state} hYields := by
    induction h generalizing story with
    | done hFits =>
      cases hYields
      exact .inr ⟨hFits, .done⟩
    | wait hFits _ ih =>
      cases hYields with
      | wait hRest =>
        rcases ih _ _ (hKept.fits _ _ hFits) hRest with hBad | ⟨hLast, hRest'⟩
        · exact .inl hBad
        · rw [hKept.look] at hRest'
          exact .inr ⟨hLast, .wait hRest'⟩
    | lost h => exact .inl (h.of_yields hKept.lost hYields)
  back hSure {story a state'} hYields := by
    induction h generalizing story with
    | done hFits =>
      cases hYields
      exact ⟨_, .done, hFits, rfl⟩
    | @wait why state resume resume' hFits _ ih =>
      cases hYields with
      | @wait _ signal _ _ _ story _ hRest =>
        rw [← hKept.look] at hRest
        obtain ⟨last, hFirst, hLast⟩ := ih signal _ (hKept.fits _ _ hFits) hRest
        exact ⟨last, .wait hFirst, hLast⟩
    | @lost r r' h =>
      -- Nothing is known of the second run, but the first one cannot be lost.
      cases r with
      | done a state => exact absurd h (hBad hSure a state)
      | wait why state resume => exact absurd h.1 (hLost hSure state)

namespace Tracks

theorem fits (h : r.Tracks touch S sure bad r') (hBad : ∀ a state, ¬bad a state) {story : List (Wait × Signal)} {a : α}
    {state : σ} (hYields : r.Yields touch story a state) : S.Fits state :=
  ((h.forth hYields).resolve_left (hBad a state)).1

theorem of_done {a : α} {state state' : σ} (hFits : S.Fits state) (hLook : state' = S.look state) :
    (Run.done a state).Tracks touch S sure bad (.done a state') where
  forth hYields := by
    cases hYields
    exact .inr ⟨hFits, hLook ▸ .done⟩
  back _ _ _ _ hYields := by
    cases hYields
    exact ⟨state, .done, hFits, hLook⟩

theorem bind {bad' : β → σ → Prop} {f f' : α → σ → Run σ β} (h : r.Tracks touch S sure bad r')
    (hf : ∀ {story : List (Wait × Signal)} {a : α} {state : σ}, r.Yields touch story a state → S.Fits state →
      (f a state).Tracks touch S sure bad' (f' a (S.look state)))
    (hBad : ∀ {a : α} {state last : σ} {story : List (Wait × Signal)} {b : β}, bad a state →
      (f a state).Yields touch story b last → bad' b last) :
    (r.bind f).Tracks touch S sure bad' (r'.bind f') where
  forth hYields := by
    obtain ⟨first, rest, a, middle, rfl, hFirst, hRest⟩ := yields_bind.mp hYields
    rcases h.forth hFirst with hLost | ⟨hFits, hFirst'⟩
    · exact .inl (hBad hLost hRest)
    · rcases (hf hFirst hFits).forth hRest with hLost | ⟨hLast, hRest'⟩
      · exact .inl hLost
      · exact .inr ⟨hLast, yields_bind.mpr ⟨first, rest, a, S.look middle, rfl, hFirst', hRest'⟩⟩
  back hSure {story b state'} hYields := by
    obtain ⟨first, rest, a, middle', rfl, hFirst', hRest'⟩ := yields_bind.mp hYields
    obtain ⟨middle, hFirst, hFits, rfl⟩ := h.back hSure hFirst'
    obtain ⟨state, hRest, hLast, rfl⟩ := (hf hFirst hFits).back hSure hRest'
    exact ⟨state, yields_bind.mpr ⟨first, rest, a, middle, rfl, hFirst, hRest⟩, hLast, rfl⟩

end Tracks

end Pipework.Run
