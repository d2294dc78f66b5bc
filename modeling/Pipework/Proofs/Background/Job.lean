import Pipework.Job
import Pipework.Proofs.Background.Basic
import Pipework.Proofs.Schedule.Basic

/-!
# Killing a job

Calls that wait for a job or kill it are made at any time, any number of them at once, while the script runs. A
call that kills first looks whether the script has finished, then cancels it, then waits for it; only if it
found the script finished it reports the fault. So a script is not reported by the call that stopped it, nor by
any call that looked before the script ended. A call that is made after that finds the script finished, like any
script that ended by itself.
-/

namespace Pipework.Job

structure Use where
  world : World
  progress : Progress
  canceled : Bool
  finished : Bool

def Use.begun (start : World → Background) (w : World) : Use := ⟨w, .due start, false, false⟩

/-- What happens to a job. Calls are told apart by numbers. -/
inductive Event where
  | waits (id : Nat)
  /-- A call that waited learns the result, and cancels what may be left. -/
  | releases (id : Nat) (result : Except Fault String)
  | answers (id : Nat) (result : Except Fault String)
  /-- A call that is to kill the script looks whether it has finished. -/
  | looks (id : Nat) (finished : Bool)
  | cancels (id : Nat)
  | kills (id : Nat) (fault : Option Fault)
  | runs (written : Bytes)
  | finishes (result : Except Fault String)
  | leaves
  -- Others change the world.
  | outside

def Event.call? : Event → Option Nat
  | .waits id | .releases id _ | .answers id _ | .looks id _ | .cancels id | .kills id _ => some id
  | .runs _ | .finishes _ | .leaves | .outside => none

/-- One step of a job or of a call, after the events `past`. How far a call has come is what it has done. -/
inductive Step (past : List Event) : Use → Event → Use → Prop
  | wait {u : Use} {id : Nat} (hCall : doneBy Event.call? id past = []) : Step past u (.waits id) u
  | release {u : Use} {id : Nat} {result : Except Fault String} (hCall : doneBy Event.call? id past = [.waits id])
      (hDone : u.progress = .done result) : Step past u (.releases id result) { u with canceled := true }
  | answer {u : Use} {id : Nat} {result : Except Fault String}
      (hCall : doneBy Event.call? id past = [.waits id, .releases id result]) : Step past u (.answers id result) u
  | look {u : Use} {id : Nat} (hCall : doneBy Event.call? id past = []) : Step past u (.looks id u.finished) u
  | cancel {u : Use} {id : Nat} {finished : Bool} (hCall : doneBy Event.call? id past = [.looks id finished]) :
    Step past u (.cancels id) { u with canceled := true }
  | kill {u : Use} {id : Nat} {finished : Bool} {result : Except Fault String}
      (hCall : doneBy Event.call? id past = [.looks id finished, .cancels id]) (hDone : u.progress = .done result) :
    Step past u (.kills id (if finished then faultOf result else none)) u
  | run {u : Use} {written : Bytes} {progress : Progress} {w : World}
      -- The output of a job has no consumer who could go.
      (hMoves : Progress.Moves u.canceled u.canceled (u.progress, u.world) written (progress, w)) :
    Step past u (.runs written) { u with progress := progress, world := w }
  | finish {u : Use} {result : Except Fault String} (hEnded : u.progress = .ended result) :
    Step past u (.finishes result) { u with progress := .noted result, finished := true }
  | leave {u : Use} {result : Except Fault String} (hNoted : u.progress = .noted result) :
    Step past u .leaves { u with progress := .done result }
  | outside {u : Use} (w : World) : Step past u .outside { u with world := w }

variable {start : World → Background} {w : World} {events : List Event} {u : Use}

/-- Whether the script has finished, and how, can be told from what has happened. -/
structure Known (events : List Event) (u : Use) : Prop where
  finished : u.finished = u.progress.result?.isSome
  result : ∀ result, .finishes result ∈ events ↔ u.progress.result? = some result

theorem Known.keep {e : Event} {v : Use} (h : Known events u) (hFinished : v.finished = u.finished)
    (hResult : v.progress.result? = u.progress.result?) (hEvent : ∀ result, e ≠ .finishes result) :
    Known (events ++ [e]) v := by
  constructor
  · rw [hFinished, hResult, h.finished]
  · intro result
    rw [hResult, ← h.result]
    simp [Ne.symm (hEvent result)]

theorem Known.step {e : Event} {v : Use} (h : Known events u) (hStep : Step events u e v) :
    Known (events ++ [e]) v := by
  cases hStep with
  | run hMoves =>
    obtain ⟨-, hBefore, -, hAfter, -⟩ := hMoves.unfinished
    exact h.keep rfl (hAfter.trans hBefore.symm) (by simp)
  | @finish result hEnded =>
    have hBefore : ∀ result, .finishes result ∉ events := by
      intro result hMem
      rw [h.result, hEnded] at hMem
      cases hMem
    constructor
    · rfl
    · intro result'
      simp [hBefore, Progress.result?, eq_comm]
  | leave hNoted => exact h.keep rfl (by rw [hNoted]; rfl) (by simp)
  | _ => exact h.keep rfl rfl (by simp)

theorem known (h : History Step (.begun start w) events u) : Known events u := by
  refine h.invariant ⟨rfl, ?_⟩ Known.step
  intro result
  constructor <;> rintro ⟨⟩

theorem finishes_unique (h : History Step (.begun start w) events u) {result result' : Except Fault String}
    (hFirst : .finishes result ∈ events) (hSecond : .finishes result' ∈ events) : result = result' := by
  rw [(known h).result] at hFirst hSecond
  exact Option.some.inj (hFirst.symm.trans hSecond)

section Follows

variable {s : Use} {j : Job}

theorem ends {result : Except Fault String} (h : History Step s events u) (hEnded : u.progress = .ended result) :
    History Step s (events ++ [.finishes result, .leaves]) { u with progress := .done result, finished := true } := by
  simpa using (h.snoc (.finish hEnded)).snoc (.leave rfl)

theorem stops (h : History Step s events u) (hCanceled : u.canceled = true) {r : Background} {w : World}
    (hProgress : u.progress = .settled r 0) (hWorld : u.world = w) :
    ∃ middle v, History Step s (events ++ middle) v ∧ (∀ id, doneBy Event.call? id middle = []) ∧
      v.progress = .done (stopRun r 0 w).1 ∧ v.world = (stopRun r 0 w).2 := by
  cases r with
  | done result state => exact ⟨[], u, by simpa using h, fun _ => rfl, hProgress, hWorld⟩
  | wait why state resume =>
    obtain ⟨written, hGoes⟩ := Progress.goes_stop why state resume 0 w
    have hThen : History Step s events { u with progress := .waiting why resume 0, world := w } := by
      rw [← hWorld, ← show u.progress = .waiting why resume 0 from hProgress]
      exact h
    have hStopped := hGoes.history .runs (fun x => { u with progress := x.1, world := x.2 })
      (fun hMoves => .run (by simpa [hCanceled] using hMoves)) hThen
    have hEnd := ends hStopped rfl
    rw [List.append_assoc] at hEnd
    refine ⟨_, _, hEnd, fun id => ?_, rfl, rfl⟩
    rw [doneBy_append, doneBy_map fun _ => rfl]
    rfl

/-- A job in use has come as far as `j` in the world `w`. -/
structure Use.Is (u : Use) (j : Job) (w : World) : Prop where
  world : u.world = w
  progress : u.progress = .settled j.run 0
  canceled : j.run.isDone = false → u.canceled = false

theorem start_follows (start : World → Background) (w : World) :
    ∃ events u, History Step (.begun start w) events u ∧ u.Is (Job.start start w).1 (Job.start start w).2 ∧
      ∀ id, doneBy Event.call? id events = [] := by
  have hMoves : Progress.Moves false false (.due start, w) (start w).offered (.ofRun (start w), (start w).state) := .go
  have hStart : History Step (.begun start w) [.runs (start w).offered]
      ⟨(start w).state, .ofRun (start w), false, false⟩ := .snoc .nil (.run hMoves)
  unfold Job.start
  cases hRun : start w with
  | done result state =>
    rw [hRun] at hStart
    exact ⟨_, _, ends hStart rfl, ⟨rfl, rfl, by simp [Run.isDone]⟩, fun _ => rfl⟩
  | wait why state resume =>
    rw [hRun] at hStart
    exact ⟨_, _, hStart, ⟨rfl, rfl, fun _ => rfl⟩, fun _ => rfl⟩

theorem kill_follows (h : History Step (.begun start w) events u) {w' : World} (hIs : u.Is j w') {id : Nat}
    (hNew : doneBy Event.call? id events = []) :
    ∃ middle u', History Step (.begun start w)
        (events ++ [.looks id j.run.isDone, .cancels id] ++ middle ++ [.kills id (j.kill w').1]) u' ∧
      u'.Is (j.kill w').2.1 (j.kill w').2.2 := by
  obtain ⟨hWorld, hProgress, -⟩ := hIs
  have hFinished : u.finished = j.run.isDone := by
    rw [(known h).finished, hProgress]
    cases j.run <;> rfl
  have hLook := h.snoc (.look hNew)
  rw [hFinished] at hLook
  have hLooked := doneBy_concat hNew (e := .looks id j.run.isDone) rfl
  have hCancel := hLook.snoc (.cancel hLooked)
  obtain ⟨middle, v, hStops, hMiddle, hDone, hWorld'⟩ := stops hCancel rfl hProgress hWorld
  have hOwn : doneBy Event.call? id (events ++ [.looks id j.run.isDone] ++ [.cancels id] ++ middle) =
      [.looks id j.run.isDone, .cancels id] := by
    rw [doneBy_append, doneBy_concat hLooked rfl, hMiddle]
    rfl
  have hKill := hStops.snoc (.kill hOwn hDone)
  have hAnswer : (if j.run.isDone then faultOf (stopRun j.run 0 w').1 else none) = (j.kill w').1 := by
    unfold Job.kill
    cases j.run <;> rfl
  rw [hAnswer] at hKill
  refine ⟨middle, v, by simpa using hKill, ?_⟩
  unfold Job.kill
  cases hRun : j.run with
  | done result state =>
    rw [hRun] at hDone hWorld'
    exact ⟨hWorld', by rw [hRun]; exact hDone, by simp [hRun, Run.isDone]⟩
  | wait why state resume =>
    rw [hRun] at hDone hWorld'
    exact ⟨hWorld', hDone, by simp [Run.isDone]⟩

/-- A script that a call has stopped is taken for one that ended by itself when the job is killed again. -/
theorem kill_again (hWaits : j.run.isDone = false) (w w' : World) :
    (j.kill w).1 = none ∧ ((j.kill w).2.1.kill w').1 = faultOf (stopRun j.run 0 w).1 := by
  obtain ⟨run⟩ := j
  cases run with
  | done result state => cases hWaits
  | wait why state resume => exact ⟨rfl, rfl⟩

end Follows

theorem looks_inv {v : Use} {id : Nat} {found : Bool} (h : Step events u (.looks id found) v) :
    doneBy Event.call? id events = [] ∧ found = u.finished := by
  generalize hEvent : Event.looks id found = e at h
  cases h with
  | look hCall =>
    injection hEvent with hId hFound
    subst hId
    exact ⟨hCall, hFound⟩
  | _ => cases hEvent

theorem finishes_of_looks {v : Use} {id : Nat} (h : Known events u) (hStep : Step events u (.looks id true) v) :
    ∃ result, .finishes result ∈ events := by
  obtain ⟨-, hFound⟩ := looks_inv hStep
  have hSome : u.progress.result?.isSome = true := h.finished.symm.trans hFound.symm
  obtain ⟨result, hResult⟩ := Option.isSome_iff_exists.mp hSome
  exact ⟨result, (h.result result).mpr hResult⟩

/-- A call that reports a fault has looked and found the script finished; the fault is that of the script. -/
theorem kills_inv {v : Use} {id : Nat} {fault : Fault} (h : Known events u)
    (hStep : Step events u (.kills id (some fault)) v) :
    doneBy Event.call? id events = [.looks id true, .cancels id] ∧
      ∃ result, faultOf result = some fault ∧ .finishes result ∈ events := by
  generalize hEvent : Event.kills id (some fault) = e at hStep
  cases hStep with
  | @kill id' finished result hCall hDone =>
    injection hEvent with hId hFault
    subst hId
    cases finished with
    | false => cases hFault
    | true =>
      refine ⟨hCall, result, hFault.symm, ?_⟩
      rw [h.result, hDone]
      rfl
  | _ => cases hEvent

/-- A call that kills a job reports a fault only if it is that of the script, and the script had finished before
this call canceled it. Unless the call looked only after a script had finished that an earlier call had
canceled, the script had finished before any call canceled it. -/
theorem kill_reports_end (h : History Step (.begun start w) events u) {before after : List Event} {id : Nat}
    {fault : Fault} (hKill : events = before ++ .kills id (some fault) :: after) :
    ∃ result, faultOf result = some fault ∧
      (∀ p q, events = p ++ .cancels id :: q → .finishes result ∈ p) ∧
      ((∀ p j q result r, before = p ++ .cancels j :: q ++ .finishes result :: r →
          ∀ found, .looks id found ∉ r) →
        ∀ p j q, events = p ++ .cancels j :: q → .finishes result ∈ p) := by
  obtain ⟨v, v', hBefore, hStep⟩ := h.split hKill
  obtain ⟨hCall, result, hFault, hFinishes⟩ := kills_inv (known hBefore) hStep
  obtain ⟨a, b, hLooks⟩ := List.append_of_mem (mem_of_doneBy hCall List.mem_cons_self)
  obtain ⟨x, x', hPast, hLook⟩ := hBefore.split hLooks
  have hEarly : .finishes result ∈ a := by
    obtain ⟨result', hMem⟩ := finishes_of_looks (known hPast) hLook
    have hBoth : .finishes result' ∈ before := hLooks ▸ List.mem_append_left _ hMem
    exact finishes_unique hBefore hBoth hFinishes ▸ hMem
  have hEvents : events = a ++ .looks id true :: (b ++ .kills id (some fault) :: after) := by
    rw [hKill, hLooks, List.append_assoc, List.cons_append]
  refine ⟨result, hFault, ?_, ?_⟩
  · intro p q hCancels
    rcases earlier_or_later (hCancels.symm.trans hEvents) (by simp) with ⟨r, rfl⟩ | ⟨r, rfl⟩
    · exact List.mem_append_left _ hEarly
    · -- A call looks before it cancels.
      have hOwn := mem_doneBy (looks_inv hLook).1 (List.mem_append_right p List.mem_cons_self) rfl
      cases hOwn
  · intro hPrompt p j q hCancels
    obtain ⟨c, d, rfl⟩ := List.append_of_mem hEarly
    rw [List.append_assoc, List.cons_append] at hEvents
    rcases earlier_or_later (hCancels.symm.trans hEvents) (by simp) with ⟨r, rfl⟩ | ⟨r, rfl⟩
    · exact List.mem_append_right _ List.mem_cons_self
    · have hLate : before = p ++ .cancels j :: r ++ .finishes result :: (d ++ .looks id true :: b) := by
        rw [hLooks, List.append_assoc, List.cons_append]
      exact absurd (List.mem_append_right d List.mem_cons_self) (hPrompt p j r result _ hLate true)

/-- What happens to a job that is killed when its script has ended with `result`. -/
def lateKill (result : Except Fault String) : List Event :=
  [.runs [], .finishes result, .leaves, .looks 0 true, .cancels 0, .kills 0 (faultOf result)]

theorem lateKill_history {result : Except Fault String} {w' : World} (h : start w = .done result w') :
    ∃ u, History Step (.begun start w) (lateKill result) u := by
  have hMoves : Progress.Moves false false (.due start, w) (start w).offered (.ofRun (start w), (start w).state) := .go
  rw [h] at hMoves
  have hRuns : History Step (.begun start w) [.runs []] ⟨w', .ended result, false, false⟩ := .snoc .nil (.run hMoves)
  have hLook : History Step (.begun start w) [.runs [], .finishes result, .leaves, .looks 0 true]
      ⟨w', .done result, false, true⟩ := ((hRuns.snoc (.finish rfl)).snoc (.leave rfl)).snoc (.look rfl)
  have hLooked : doneBy Event.call? 0 [.runs [], .finishes result, .leaves, .looks 0 true] = [.looks 0 true] := rfl
  have hCancel := hLook.snoc (.cancel hLooked)
  exact ⟨_, hCancel.snoc (.kill (doneBy_concat hLooked rfl) rfl)⟩

def failing : Script := ⟨[⟨⟨[⟨["fail", "a"], [], []⟩], false, "", 1⟩, []⟩]⟩

theorem kill_reports_end_failing :
    ∃ result fault u, faultOf result = some fault ∧
      History Step (.begun (failing.execute [] ⟨[], some 0, false⟩ .run) (.bench [])) (lateKill result) u ∧
      ∀ p j q, lateKill result = p ++ .cancels j :: q →
        ∃ result', faultOf result' = some fault ∧ .finishes result' ∈ p := by
  have hDone : (failing.execute [] ⟨[], some 0, false⟩ .run (.bench [])).isDone = true := by decide +kernel
  have hFault : (faultOf (failing.execute [] ⟨[], some 0, false⟩ .run (.bench [])).complete.1).isSome = true := by
    decide +kernel
  obtain ⟨fault, hFault⟩ := Option.isSome_iff_exists.mp hFault
  cases hRun : failing.execute [] ⟨[], some 0, false⟩ .run (.bench []) with
  | wait why state resume =>
    rw [hRun] at hDone
    cases hDone
  | done result w' =>
    rw [hRun] at hFault
    have hResult : faultOf result = some fault := hFault
    obtain ⟨u, h⟩ := lateKill_history hRun
    have hKill : lateKill result = [.runs [], .finishes result, .leaves, .looks 0 true, .cancels 0] ++
        .kills 0 (some fault) :: [] := by
      rw [lateKill, hResult]
      rfl
    obtain ⟨result', hFault', -, hFirst⟩ := kill_reports_end h hKill
    refine ⟨result, fault, u, hResult, h, fun p j q hCancels => ⟨result', hFault', hFirst ?_ p j q hCancels⟩⟩
    intro p j q result'' r hLate
    -- Nothing comes after the only event in which the job is canceled.
    simp [List.cons_eq_append_iff] at hLate

end Pipework.Job
