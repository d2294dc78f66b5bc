import Mathlib.Data.List.Forall2
import Pipework.Proofs.Flags.Stage
import Pipework.Proofs.Schedule.Orderly

/-!
# Crews that go in step

The stages of a pipeline may take turns in any order. Whatever they do one after the other, those of a second
run without a variable may do as well, until a failure ends the pipeline in the first run only.
-/

namespace Pipework

theorem forall₂_split {α β : Type} {R : α → β → Prop} {before after : List α} {a : α} {l : List β}
    (h : List.Forall₂ R (before ++ a :: after) l) :
    ∃ before' b after', l = before' ++ b :: after' ∧ List.Forall₂ R before before' ∧ R a b ∧
      List.Forall₂ R after after' := by
  induction before generalizing l with
  | nil =>
    cases h with
    | cons hFirst hRest => exact ⟨[], _, _, rfl, .nil, hFirst, hRest⟩
  | cons a' before ih =>
    cases h with
    | @cons _ b' _ _ hFirst hRest =>
      obtain ⟨before', b, after', rfl, hBefore, hHere, hAfter⟩ := ih hRest
      exact ⟨b' :: before', b, after', rfl, .cons hFirst hBefore, hHere, hAfter⟩

/-- From here on the stage neither asks for the variable `key` nor sets it, nor runs a script. -/
def Work.Avoids {S : Type} (key : String) : Work S → Prop
  | .ready program _ => program.Avoids key
  | .waiting resume next =>
    (∀ signal line, (resume signal line).Advances Line.Later line) ∧ ∀ answer, (next answer).Avoids key
  | .calling _ _ _ => False

def Turn.Avoids {S : Type} (key : String) : Turn S → Prop
  | .on work => work.Avoids key
  | .ended _ => True

theorem Run.Doomed.not_never {σ α : Type} {lost : σ → Prop} {r : Run σ α} (h : r.Doomed lost fun _ _ => False) :
    False := by
  induction r with
  | done a state => exact h
  | wait why state resume ih => exact ih .ready state (h.2 .ready state h.1)

section Turns

variable {C : Calls} {mayCall : Prop} {key : String} {st : Stage} {work : Work C.State} {line : Line}
  {x : Turn C.State × Line} {action : Action} {next : action.Answer → Program (Except Fault Unit)}

theorem Stage.after_later {reply : Reply action.Answer} (h : reply.Advances Line.Later line)
    (hNext : ∀ answer, (next answer).Avoids key) :
    (st.after (S := C.State) next reply).1.Avoids key ∧ line.Later (st.after (S := C.State) next reply).2 := by
  cases reply with
  | done result line' =>
    obtain ⟨desk, answer⟩ := result
    have hLater : line.Later line' := h
    cases answer with
    | some answer => exact ⟨hNext answer, hLater⟩
    | none => exact ⟨trivial, hLater.trans (st.later_close desk line' _)⟩
  | wait why line' resume => exact ⟨⟨h.2, hNext⟩, h.1⟩

theorem Acts.later (h : Acts C mayCall st (.on work, line) x) (hAvoids : work.Avoids key) :
    x.1.Avoids key ∧ line.Later x.2 := by
  cases h with
  | act nested hInvokes => exact Stage.after_later (st.perform_advances nested _ line hInvokes) hAvoids.2
  | call hCall => exact hAvoids.1.elim
  | inner hStep => exact hAvoids.elim
  | answer hResult => exact hAvoids.elim
  | resume signal hStop => exact Stage.after_later (hAvoids.1 signal line) hAvoids.2
  | kill hProcess hCanceled => exact ⟨trivial, st.later_close _ line _⟩
  | finish => exact ⟨trivial, st.later_close _ line _⟩

end Turns

namespace Hiding

variable (H : Hiding) {S : Type}

/-- What a stage is in the middle of, in the first run and in the second. -/
inductive Works : Work S → Work S → Prop
  | ready {program : Program (Except Fault Unit)} {desk : Desk} : Works (.ready program desk) (.ready program desk)
  | waiting {action : Action} {resume resume' : Signal → Line → Reply action.Answer}
      {next : action.Answer → Program (Except Fault Unit)}
      (hResume : ∀ signal line, H.Fits line →
        (resume signal line).InStep H.shadow (fun _ _ => False) (resume' signal (H.line line))) :
    Works (.waiting resume next) (.waiting resume' next)

/-- What has come of a turn in the first run, and in the second unless the first has lost step. -/
inductive Turns : Turn S × Line → Turn S × Line → Prop
  | lost {x x' : Turn S × Line} (hLost : H.Lost x.2) : Turns x x'
  | on {work work' : Work S} {line : Line} (hWork : H.Works work work') (hFits : H.Fits line) :
    Turns (.on work, line) (.on work', H.line line)
  | ended {result : Option Failure} {line : Line} (hFits : H.Fits line) :
    Turns (.ended result, line) (.ended result, H.line line)

/-- The same stage in both runs. -/
inductive Workers : Worker S → Worker S → Prop
  | intro {w : Worker S} {work' : Work S} (hWork : H.Works w.work work') : Workers w { w with work := work' }

/-- The crew of a pipeline in both runs. -/
inductive Crews : Crew S → Crew S → Prop
  | intro {line : Line} {pending : List Command} {launched : Nat} {workers workers' : List (Worker S)}
      {refusal : Option Fault} (hFits : H.Fits line) (hWorkers : List.Forall₂ H.Workers workers workers') :
    Crews ⟨line, pending, launched, workers, refusal⟩ ⟨H.line line, pending, launched, workers', refusal⟩

variable {H} {st : Stage} {line : Line}

theorem Works.isReading {work work' : Work S} (h : H.Works work work') :
    work'.isReading = work.isReading ∧ work'.amount = work.amount := by
  cases h <;> exact ⟨rfl, rfl⟩

theorem turns_closed (hFits : H.Fits line) (fault : Option Fault) (desk : Desk) :
    H.Turns (st.closed (S := S) fault desk line) (st.closed fault desk (H.line line)) := by
  by_cases hLost : H.Lost (st.close fault desk line)
  · exact .lost hLost
  · unfold Stage.closed
    rw [Stage.close_line hLost]
    exact .ended (Stage.fits_close hFits hLost)

theorem turns_after {action : Action} {next : action.Answer → Program (Except Fault Unit)}
    {reply reply' : Reply action.Answer} (h : reply.InStep H.shadow (fun _ _ => False) reply') :
    H.Turns (st.after (S := S) next reply) (st.after next reply') := by
  cases h with
  | @done result line hFits =>
    obtain ⟨desk, answer⟩ := result
    cases answer with
    | some answer => exact .on .ready hFits
    | none => exact turns_closed hFits _ desk
  | wait hFits hResume => exact .on (.waiting hResume) hFits
  | lost h => exact h.not_never.elim

theorem turns_acts {C : Calls} {mayCall : Prop} {work work' : Work C.State} {x : Turn C.State × Line}
    (h : Acts C mayCall st (.on work, line) x) (hWork : H.Works work work') (hAvoids : work.Avoids H.key)
    (hFits : H.Fits line) : ∃ x', Acts C mayCall st (.on work', H.line line) x' ∧ H.Turns x x' := by
  cases h with
  | act nested hInvokes =>
    cases hWork
    exact ⟨_, .act nested hInvokes, turns_after (Stage.perform_inStep hFits nested _ hAvoids.1)⟩
  | call hCall => exact hAvoids.1.elim
  | inner hStep => exact hAvoids.elim
  | answer hResult => exact hAvoids.elim
  | resume signal hStop =>
    cases hWork with
    | waiting hResume => exact ⟨_, .resume signal hStop, turns_after (hResume signal line hFits)⟩
  | kill hProcess hCanceled =>
    cases hWork
    exact ⟨_, .kill hProcess hCanceled, turns_closed hFits _ _⟩
  | finish =>
    cases hWork
    exact ⟨_, .finish, turns_closed hFits _ _⟩

theorem workers_inOrder {workers workers' : List (Worker S)} (h : List.Forall₂ H.Workers workers workers')
    (hOrder : ∀ w ∈ workers, w.inOrder = false) : ∀ w ∈ workers', w.inOrder = false := by
  induction h with
  | nil => simp
  | cons hFirst _ ih =>
    obtain ⟨hHead, hTail⟩ := List.forall_mem_cons.mp hOrder
    cases hFirst
    exact List.forall_mem_cons.mpr ⟨hHead, ih hTail⟩

end Hiding

namespace Crew

/-- No stage at work asks for the variable `key`, sets it or runs a script. -/
def Avoids {S : Type} (key : String) (crew : Crew S) : Prop := ∀ w ∈ crew.workers, w.work.Avoids key

/-- The command that is launched next ignores the variable `key`. -/
def Heedless {S : Type} (v : Invoker) (output : Output) (key : String) (crew : Crew S) : Prop :=
  ∀ c rest, crew.pending = c :: rest → v.Ignores key output crew.launched rest.isEmpty c crew.line

variable {v : Invoker} {output : Output} {C : Calls} {mayCall : Prop} {key : String} {crew next : Crew C.State}
  {event : Event}

theorem Step.later (h : Step v output C mayCall crew event next) (hAvoids : crew.Avoids key)
    (hHeedless : crew.Heedless v output key) : next.Avoids key ∧ crew.line.Later next.line := by
  cases h with
  | @launch c rest start line hPending hRefusal hOrder hLaunch =>
    have hLater : crew.line.Later (v.launch output crew.launched rest.isEmpty c crew.line).2 := v.later_launch
    rw [hLaunch] at hLater
    refine ⟨List.forall_mem_append.mpr ⟨hAvoids, List.forall_mem_singleton.mpr ?_⟩, hLater⟩
    exact (hHeedless c rest hPending).avoids start line hLaunch
  | @refuse c rest fault line hPending hRefusal hOrder hLaunch =>
    have hLater : crew.line.Later (v.launch output crew.launched rest.isEmpty c crew.line).2 := v.later_launch
    rw [hLaunch] at hLater
    exact ⟨hAvoids, hLater.trans (.cancel line)⟩
  | @act before after w work line hWorkers hActs =>
    have hMem : w ∈ crew.workers := hWorkers ▸ List.mem_append_right before List.mem_cons_self
    obtain ⟨hOn, hLater⟩ := hActs.later (hAvoids w hMem)
    refine ⟨?_, hLater⟩
    unfold Avoids at hAvoids ⊢
    rw [hWorkers] at hAvoids
    simp only [List.forall_mem_append, List.forall_mem_cons] at hAvoids ⊢
    exact ⟨hAvoids.1, hOn, hAvoids.2.2⟩
  | @finish before after w result line hWorkers hActs =>
    have hMem : w ∈ crew.workers := hWorkers ▸ List.mem_append_right before List.mem_cons_self
    refine ⟨?_, (hActs.later (hAvoids w hMem)).2⟩
    unfold Avoids at hAvoids ⊢
    rw [hWorkers] at hAvoids
    simp only [List.forall_mem_append, List.forall_mem_cons] at hAvoids ⊢
    exact ⟨hAvoids.1, hAvoids.2.2⟩
  | stop => exact ⟨hAvoids, .stop crew.line⟩

end Crew

namespace Hiding.Crews

variable {H : Hiding} {v : Invoker} {output : Output} {C : Calls} {mayCall : Prop} {crew crew' next : Crew C.State}
  {event : Event}

theorem step (h : H.Crews crew crew') (hAvoids : crew.Avoids H.key) (hHeedless : crew.Heedless v output H.key)
    (hStep : Crew.Step v output C mayCall crew event next) :
    H.Lost next.line ∨ ∃ next', Crew.Step v output C mayCall crew' event next' ∧ H.Crews next next' := by
  obtain @⟨line, pending, launched, workers, workers', refusal, hFits, hWorkers⟩ := h
  cases hStep with
  | @launch c rest start line' hPending hRefusal hOrder hLaunch =>
    have hSecond := Invoker.launch_line hFits (hHeedless c rest hPending)
    have hAfter : H.Fits (v.launch output launched rest.isEmpty c line).2 := Invoker.fits_launch hFits _ _ _
    dsimp only at hLaunch hSecond
    rw [hLaunch] at hSecond hAfter
    refine .inr ⟨_, .launch hPending hRefusal (workers_inOrder hWorkers hOrder) hSecond, .intro hAfter ?_⟩
    exact List.rel_append hWorkers (.cons (.intro .ready) .nil)
  | @refuse c rest fault line' hPending hRefusal hOrder hLaunch =>
    have hSecond := Invoker.launch_line hFits (hHeedless c rest hPending)
    have hAfter : H.Fits (v.launch output launched rest.isEmpty c line).2 := Invoker.fits_launch hFits _ _ _
    dsimp only at hLaunch hSecond
    rw [hLaunch] at hSecond hAfter
    exact .inr ⟨_, .refuse hPending hRefusal (workers_inOrder hWorkers hOrder) hSecond, .intro hAfter hWorkers⟩
  | @act before after w work line' hSplit hActs =>
    dsimp only at hSplit hActs
    subst hSplit
    obtain ⟨before', w', after', rfl, hBefore, hWorker, hAfter⟩ := forall₂_split hWorkers
    obtain @⟨work', hWork⟩ := hWorker
    obtain ⟨x', hActs', hTurns⟩ := turns_acts hActs hWork (hAvoids w (by simp)) hFits
    cases hTurns with
    | lost hLost => exact .inl hLost
    | on hOn hFits' =>
      refine .inr ⟨_, .act (w := { w with work := work' }) rfl hActs', .intro hFits' ?_⟩
      exact List.rel_append hBefore (.cons (.intro (w := { w with work := work }) hOn) hAfter)
  | @finish before after w result line' hSplit hActs =>
    dsimp only at hSplit hActs
    subst hSplit
    obtain ⟨before', w', after', rfl, hBefore, hWorker, hAfter⟩ := forall₂_split hWorkers
    obtain @⟨work', hWork⟩ := hWorker
    obtain ⟨x', hActs', hTurns⟩ := turns_acts hActs hWork (hAvoids w (by simp)) hFits
    cases hTurns with
    | lost hLost => exact .inl hLost
    | ended hFits' =>
      refine .inr ⟨_, .finish (w := { w with work := work' }) rfl hActs', .intro hFits' ?_⟩
      exact List.rel_append hBefore hAfter
  | stop => exact .inr ⟨_, .stop, .intro hFits hWorkers⟩

theorem prompt {S : Type} {crew crew' : Crew S} (h : H.Crews crew crew') (hPrompt : crew.Prompt event) :
    crew'.Prompt event := by
  obtain @⟨line, pending, launched, workers, workers', refusal, hFits, hWorkers⟩ := h
  have hAwaits (w' : Worker S) (hw' : w' ∈ workers') : ∃ w ∈ workers, w.stage.index = w'.stage.index ∧
      (Crew.Awaits ⟨H.line line, pending, launched, workers', refusal⟩ w' →
        Crew.Awaits ⟨line, pending, launched, workers, refusal⟩ w) := by
    obtain ⟨before', after', rfl⟩ := List.append_of_mem hw'
    obtain ⟨before, w, after, rfl, -, hWorker, -⟩ := forall₂_split hWorkers.flip
    refine ⟨w, by simp, ?_⟩
    obtain @⟨work', hWork⟩ := hWorker
    obtain ⟨hReads, hAmount⟩ := hWork.isReading
    refine ⟨rfl, fun ⟨hReading, hSource, hShort, hRest⟩ => ⟨hReads ▸ hReading, hSource, ?_, hRest⟩⟩
    rw [← hAmount]
    exact hShort
  have hKept (i : Nat) (hNone : ∀ w ∈ workers, w.stage.index = i →
      ¬Crew.Awaits ⟨line, pending, launched, workers, refusal⟩ w) : ∀ w' ∈ workers', w'.stage.index = i →
        ¬Crew.Awaits ⟨H.line line, pending, launched, workers', refusal⟩ w' := by
    intro w' hw' hIndex hWaits
    obtain ⟨w, hw, hSame, hBefore⟩ := hAwaits w' hw'
    exact hNone w hw (hSame.trans hIndex) (hBefore hWaits)
  cases event with
  | acted i => exact hKept i hPrompt
  | ended i result => exact hKept i hPrompt
  | _ => trivial

end Hiding.Crews

end Pipework
