import Pipework.Run

/-!
# Runs that mirror each other

Where the output of a run goes must not matter to what it does. This is said of two runs, of which the second
shows the states of the first in another light: it waits when the first waits, for the same thing, and goes on
alike, whatever state it is resumed in. Besides that, the second may offer to a consumer what the first
keeps.
-/

namespace Pipework

def Wait.isOffer : Wait → Bool
  | .offer _ _ => true
  | _ => false

/-- The states of one run in the light of another. -/
structure View (σ : Type) where
  /-- How a state looks if the host has received `o`. -/
  look : (o : Bytes) → σ → σ
  /-- What has been offered to a consumer so far. -/
  sent : σ → Bytes
  taps : Prop
  Fits : σ → Prop

namespace Run

variable {σ τ α β : Type}

/-- Induction along a run that goes on by itself. It does so neither from an endless offer nor when nothing can
happen any more. -/
@[elab_as_elim]
theorem goingOn {motive : Run σ α → Prop} (done : ∀ result state, motive (.done result state))
    (wait : ∀ why state resume, why.isOffer = false → why ≠ .never → motive (resume .ready state) →
      motive (.wait why state resume))
    (offer : ∀ data state resume, motive (resume .ready state) → motive (.wait (.offer data false) state resume))
    (endless : ∀ data state resume, motive (.wait (.offer data true) state resume))
    (never : ∀ state resume, motive (.wait .never state resume)) (r : Run σ α) : motive r := by
  induction r with
  | done result state => exact done result state
  | wait why state resume ih =>
    have hNext := ih .ready state
    cases why with
    | never => exact never state resume
    | offer data isEndless =>
      cases isEndless with
      | true => exact endless data state resume
      | false => exact offer data state resume hNext
    | stop => exact wait .stop state resume rfl (by simp) hNext
    | input i => exact wait (.input i) state resume rfl (by simp) hNext
    | room i => exact wait (.room i) state resume rfl (by simp) hNext

/-- What a run offers in all, its result and its last state, if it comes to an end by itself. -/
def drain : Run σ α → Option (Bytes × α × σ)
  | .done result state => some ([], result, state)
  | .wait (.offer data false) state resume =>
    (resume .ready state).drain.map fun (more, x) => (data ++ more, x)
  | .wait (.offer _ true) _ _ | .wait .never _ _ => none
  | .wait _ state resume => (resume .ready state).drain

/-- Whether a run that goes on by itself comes to offer something without end. -/
def floods : Run σ α → Bool
  | .done _ _ => false
  | .wait (.offer _ true) _ _ => true
  | .wait .never _ _ => false
  | .wait _ state resume => (resume .ready state).floods

section Waits

variable {why : Wait} (hOffer : why.isOffer = false) (hNever : why ≠ .never) (state : σ)
  (resume : Signal → σ → Run σ α)

include hOffer hNever

theorem drain_wait : (Run.wait why state resume).drain = (resume .ready state).drain := by
  cases why with
  | never => exact absurd rfl hNever
  | offer data endless => cases hOffer
  | _ => rfl

theorem floods_wait : (Run.wait why state resume).floods = (resume .ready state).floods := by
  cases why with
  | never => exact absurd rfl hNever
  | offer data endless => cases hOffer
  | _ => rfl

end Waits

theorem ne_never_of_drain {why : Wait} {state : σ} {resume : Signal → σ → Run σ α} {x : Bytes × α × σ}
    (h : (Run.wait why state resume).drain = some x) : why ≠ .never := by
  rintro rfl
  cases h

theorem drain_bind (r : Run σ α) (f : α → σ → Run σ β) :
    (r.bind f).drain = r.drain.bind fun (data, a, state) =>
      (f a state).drain.map fun (more, x) => (data ++ more, x) := by
  induction r using goingOn with
  | done result state => simp [drain]
  | wait why state resume hOffer hNever ih =>
    rw [bind, drain_wait hOffer hNever, drain_wait hOffer hNever]
    exact ih
  | offer data state resume ih =>
    rw [bind, drain, drain, ih]
    cases (resume .ready state).drain with
    | none => rfl
    | some x => simp [Function.comp_def]
  | endless data state resume => rfl
  | never state resume => rfl

theorem drain_within {get : σ → τ} {put : τ → Signal → σ → σ} (hPut : ∀ state, put (get state) .ready state = state)
    (r : Run σ α) :
    (r.within get put).drain = r.drain.map fun (data, a, state) => (data, (a, state), get state) := by
  induction r using goingOn with
  | done result state => rfl
  | wait why state resume hOffer hNever ih =>
    rw [within, drain_wait hOffer hNever, drain_wait hOffer hNever, hPut]
    exact ih
  | offer data state resume ih => simp [within, drain, hPut, ih, Function.comp_def]
  | endless data state resume => rfl
  | never state resume => rfl

theorem complete_of_drain {r : Run σ α} {data : Bytes} {a : α} {state : σ} (h : r.drain = some (data, a, state)) :
    r.complete = (a, state) := by
  induction r using goingOn generalizing data with
  | done result state =>
    cases h
    rfl
  | wait why state' resume hOffer hNever ih =>
    rw [drain_wait hOffer hNever] at h
    exact ih h
  | offer data' state' resume ih =>
    obtain ⟨⟨more, x⟩, hMore, hEq⟩ := Option.map_eq_some_iff.mp h
    cases hEq
    exact ih hMore
  | endless data' state' resume => cases h
  | never state' resume => cases h

theorem floods_of_bind {r : Run σ α} {f : α → σ → Run σ β} (h : (r.bind f).floods = false) : r.floods = false := by
  induction r using goingOn with
  | done result state => rfl
  | wait why state resume hOffer hNever ih =>
    rw [bind, floods_wait hOffer hNever] at h
    rw [floods_wait hOffer hNever]
    exact ih h
  | offer data state resume ih => exact ih h
  | endless data state resume => exact h
  | never state resume => rfl

theorem floods_bind {r : Run σ α} {data : Bytes} {a : α} {state : σ} (h : r.drain = some (data, a, state))
    (f : α → σ → Run σ β) : (r.bind f).floods = (f a state).floods := by
  induction r using goingOn generalizing data with
  | done result state =>
    cases h
    rfl
  | wait why state' resume hOffer hNever ih =>
    rw [drain_wait hOffer hNever] at h
    rw [bind, floods_wait hOffer hNever]
    exact ih h
  | offer data' state' resume ih =>
    obtain ⟨⟨more, x⟩, hMore, hEq⟩ := Option.map_eq_some_iff.mp h
    cases hEq
    exact ih hMore
  | endless data' state' resume => cases h
  | never state' resume => cases h

theorem floods_within {get : σ → τ} {put : τ → Signal → σ → σ} (hPut : ∀ state, put (get state) .ready state = state)
    (r : Run σ α) : (r.within get put).floods = r.floods := by
  induction r using goingOn with
  | done result state => rfl
  | wait why state resume hOffer hNever ih =>
    rw [within, floods_wait hOffer hNever, floods_wait hOffer hNever, hPut]
    exact ih
  | offer data state resume ih => simpa [within, floods, hPut] using ih
  | endless data state resume => rfl
  | never state resume => rfl

/-- The second run looks like the first in the light `V` when the host's output is to be `o` and `sent` has been
offered before. After a wait for `why` it only hears the signals in `hears why`. -/
inductive Mirrors (V : View σ) (hears : Wait → Signal → Prop) : (o sent : Bytes) → Run σ α → Run σ α → Prop
  | done {o sent : Bytes} {a : α} {state : σ} (hSent : V.sent state = sent) (hFits : V.Fits state) :
    Mirrors V hears o sent (.done a state) (.done a (V.look o state))
  | wait {o sent : Bytes} {why why' : Wait} {state : σ} {resume resume' : Signal → σ → Run σ α}
      (hSent : V.sent state = sent) (hFits : V.Fits state) (hOffer : why.isOffer = false)
      -- A run that keeps an endless output waits until it is stopped, one with a consumer offers it.
      (hWhy : why' = why ∨ V.taps ∧ why = .stop ∧ ∃ data, why' = .offer data true)
      (hResume : ∀ signal, hears why' signal → ∀ state o, V.Fits state →
        Mirrors V hears o (V.sent state) (resume signal state) (resume' signal (V.look o state))) :
    Mirrors V hears o sent (.wait why state resume) (.wait why' (V.look o state) resume')
  | offer {o sent data : Bytes} {r : Run σ α} {state : σ} {resume : Signal → σ → Run σ α} (hTaps : V.taps)
      (h : Mirrors V hears o (sent ++ data) r (resume .ready state)) :
    Mirrors V hears o sent r (.wait (.offer data false) state resume)

namespace Mirrors

variable {V : View σ} {hears : Wait → Signal → Prop} {o sent : Bytes} {r r' : Run σ α}

theorem of_done {a : α} {state state' : σ} (hSent : V.sent state = sent) (hFits : V.Fits state)
    (hLook : state' = V.look o state) : (Run.done a state).Mirrors V hears o sent (.done a state') :=
  hLook ▸ .done hSent hFits

theorem of_wait {why : Wait} {state state' : σ} {resume resume' : Signal → σ → Run σ α}
    (hSent : V.sent state = sent) (hFits : V.Fits state) (hLook : state' = V.look o state)
    (hOffer : why.isOffer = false)
    (hResume : ∀ signal, hears why signal → ∀ state o, V.Fits state →
      (resume signal state).Mirrors V hears o (V.sent state) (resume' signal (V.look o state))) :
    (Run.wait why state resume).Mirrors V hears o sent (.wait why state' resume') :=
  hLook ▸ .wait hSent hFits hOffer (.inl rfl) hResume

theorem mono {hears' : Wait → Signal → Prop} (hLess : ∀ why signal, hears' why signal → hears why signal)
    (h : r.Mirrors V hears o sent r') : r.Mirrors V hears' o sent r' := by
  induction h with
  | done hSent hFits => exact .done hSent hFits
  | wait hSent hFits hOffer hWhy hResume ih =>
    exact .wait hSent hFits hOffer hWhy fun signal hHears => ih signal (hLess _ signal hHears)
  | offer hTaps _ ih => exact .offer hTaps ih

theorem bind {f f' : α → σ → Run σ β} (h : r.Mirrors V hears o sent r')
    (hf : ∀ a state o, V.Fits state → (f a state).Mirrors V hears o (V.sent state) (f' a (V.look o state))) :
    (r.bind f).Mirrors V hears o sent (r'.bind f') := by
  induction h with
  | @done o sent a state hSent hFits =>
    cases hSent
    exact hf a state o hFits
  | wait hSent hFits hOffer hWhy hResume ih => exact .wait hSent hFits hOffer hWhy ih
  | offer hTaps _ ih => exact .offer hTaps ih

/-- A run with a consumer that comes to an end: so does the other, and keeps what this one offers. -/
theorem drain_left (hHears : ∀ why, why ≠ .never → hears why .ready) (h : r.Mirrors V hears o sent r') {data : Bytes}
    {a : α} {state' : σ} (hDrain : r'.drain = some (data, a, state')) :
    ∃ state, r.drain = some ([], a, state) ∧ V.sent state = sent ++ data ∧ state' = V.look o state ∧ V.Fits state := by
  induction h generalizing data with
  | @done o sent a state hSent hFits =>
    cases hDrain
    exact ⟨state, rfl, by simpa using hSent, rfl, hFits⟩
  | @wait o sent why why' state resume resume' hSent hFits hOffer hWhy hResume ih =>
    rcases hWhy with rfl | ⟨-, -, data, rfl⟩
    · subst hSent
      have hNever := ne_never_of_drain hDrain
      rw [drain_wait hOffer hNever] at hDrain ⊢
      exact ih .ready (hHears why' hNever) state o hFits hDrain
    · cases hDrain
  | offer hTaps _ ih =>
    obtain ⟨⟨more, x⟩, hMore, hEq⟩ := Option.map_eq_some_iff.mp hDrain
    cases hEq
    obtain ⟨state, hLeft, hSent, hLook, hFits⟩ := ih hMore
    exact ⟨state, hLeft, by rw [hSent, List.append_assoc], hLook, hFits⟩

/-- Without a consumer, the second run comes to an end when the first does. -/
theorem drain_right (hHears : ∀ why, why ≠ .never → hears why .ready) (hTaps : ¬V.taps)
    (h : r.Mirrors V hears o sent r') {data : Bytes} {a : α} {state : σ} (hDrain : r.drain = some (data, a, state)) :
    data = [] ∧ r'.drain = some ([], a, V.look o state) ∧ V.Fits state := by
  induction h generalizing data with
  | done hSent hFits =>
    cases hDrain
    exact ⟨rfl, rfl, hFits⟩
  | @wait o sent why why' state' resume resume' hSent hFits hOffer hWhy hResume ih =>
    rcases hWhy with rfl | ⟨h, -⟩
    · have hNever := ne_never_of_drain hDrain
      rw [drain_wait hOffer hNever] at hDrain ⊢
      exact ih .ready (hHears why' hNever) state' o hFits hDrain
    · exact absurd h hTaps
  | offer h _ _ => exact absurd h hTaps

theorem drain_fits (hHears : ∀ why, why ≠ .never → hears why .ready) (h : r.Mirrors V hears o sent r') {data : Bytes}
    {a : α} {state : σ} (hDrain : r.drain = some (data, a, state)) : data = [] ∧ V.Fits state := by
  induction h generalizing data with
  | done hSent hFits =>
    cases hDrain
    exact ⟨rfl, hFits⟩
  | @wait o sent why why' state' resume resume' hSent hFits hOffer hWhy hResume ih =>
    have hNever := ne_never_of_drain hDrain
    have hNever' : why' ≠ .never := by
      rcases hWhy with rfl | ⟨-, -, data, rfl⟩
      · exact hNever
      · simp
    rw [drain_wait hOffer hNever] at hDrain
    exact ih .ready (hHears why' hNever') state' o hFits hDrain
  | offer _ _ ih => exact ih hDrain

/-- A run with a consumer comes to an end as well, unless it offers something without end. -/
theorem drain_of_not_floods (hHears : ∀ why, why ≠ .never → hears why .ready) (h : r.Mirrors V hears o sent r')
    {data : Bytes} {a : α} {state : σ} (hDrain : r.drain = some (data, a, state)) (hFloods : r'.floods = false) :
    ∃ x, r'.drain = some x := by
  induction h generalizing data with
  | done hSent hFits => exact ⟨_, rfl⟩
  | @wait o sent why why' state' resume resume' hSent hFits hOffer hWhy hResume ih =>
    rcases hWhy with rfl | ⟨-, -, data, rfl⟩
    · have hNever := ne_never_of_drain hDrain
      rw [drain_wait hOffer hNever] at hDrain ⊢
      rw [floods_wait hOffer hNever] at hFloods
      exact ih .ready (hHears why' hNever) state' o hFits hDrain hFloods
    · cases hFloods
  | offer hTaps _ ih =>
    obtain ⟨x, hMore⟩ := ih hDrain hFloods
    exact ⟨_, congrArg (Option.map _) hMore⟩

theorem complete (hHears : ∀ why signal, hears why signal) (hTaps : ¬V.taps) (h : r.Mirrors V hears o sent r') :
    r'.complete = (r.complete.1, V.look o r.complete.2) ∧ V.Fits r.complete.2 ∧ V.sent r.complete.2 = sent := by
  induction h with
  | done hSent hFits => exact ⟨rfl, hFits, hSent⟩
  | @wait o sent why why' state _ _ hSent hFits hOffer hWhy hResume ih =>
    subst hSent
    exact ih .ready (hHears why' .ready) state o hFits
  | offer h _ _ => exact absurd h hTaps

theorem finish (hHears : ∀ why signal, hears why signal) (hTaps : ¬V.taps) (h : r.Mirrors V hears o sent r') :
    r'.finish = (r.finish.1, V.look o r.finish.2) ∧ V.Fits r.finish.2 ∧ V.sent r.finish.2 = sent := by
  induction h with
  | done hSent hFits => exact ⟨rfl, hFits, hSent⟩
  | @wait o sent why why' state _ _ hSent hFits hOffer hWhy hResume ih =>
    subst hSent
    exact ih (.stop 0) (hHears why' (.stop 0)) state o hFits
  | offer h _ _ => exact absurd h hTaps

theorem within_bind {U : View τ} {get : σ → τ} {put : τ → Signal → σ → σ} {f f' : α × σ → τ → Run τ β}
    (h : r.Mirrors V hears o sent r') (hTaps : ¬V.taps)
    (hGet : ∀ state o, get (V.look o state) = U.look o (get state))
    (hPut : ∀ part signal state o o', put (U.look o part) signal (V.look o' state) = V.look o (put part signal state))
    (hFits : ∀ state, V.Fits state → U.Fits (get state))
    (hFits' : ∀ part signal state, U.Fits part → V.Fits state → V.Fits (put part signal state))
    (hSent : ∀ state, U.sent (get state) = V.sent state)
    (hSent' : ∀ part signal state, V.sent (put part signal state) = U.sent part)
    (hf : ∀ a state o, V.Fits state →
      (f (a, state) (get state)).Mirrors U hears o (U.sent (get state))
        (f' (a, V.look o state) (U.look o (get state)))) :
    ((r.within get put).bind f).Mirrors U hears o sent ((r'.within get put).bind f') := by
  induction h with
  | @done o sent a state hEnd hEndFits =>
    subst hEnd
    change Mirrors U hears o (V.sent state) (f (a, state) (get state)) (f' (a, V.look o state) (get (V.look o state)))
    rw [hGet, ← hSent]
    exact hf a state o hEndFits
  | @wait o sent why why' state resume resume' hEnd hEndFits hOffer hWhy hResume ih =>
    rcases hWhy with rfl | ⟨h, -⟩
    · refine .of_wait ((hSent state).trans hEnd) (hFits state hEndFits) (hGet state o) hOffer ?_
      intro signal hHears part o' hPart
      have hNext := ih signal hHears (put part signal state) o' (hFits' part signal state hPart hEndFits)
      rw [← hPut part signal state o' o, hSent'] at hNext
      exact hNext
    · exact absurd h hTaps
  | offer h _ _ => exact absurd h hTaps

end Mirrors

end Run

end Pipework
