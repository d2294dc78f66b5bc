import Pipework.Proofs.Background.Basic
import Pipework.Proofs.Modes.Agreement

/-!
# Readers in use

Reads and closings of a reader are calls that are made at any time, any number of them at once, while the script
runs. Here is what each of them does step by step, and what of the state of a reader can be told from what has
happened: whether it is closed, whether the script was started and has finished, and how its output ended.
-/

namespace Pipework.Reader

structure Use where
  world : World
  progress : Progress
  started : Bool
  closed : Bool
  canceled : Bool
  gone : Bool
  finished : Bool
  ending : Option (Option Fault)

namespace Use

def fresh (start : World → Background) (w : World) : Use := ⟨w, .idle start, false, false, false, false, false, none⟩

/-- A reader whose script is started before it is read. -/
def begun (start : World → Background) (w : World) : Use := ⟨w, .due start, true, false, false, false, false, none⟩

end Use

/-- What a read finds when it begins. -/
inductive Entry where
  | starts
  | joins
  | refused
deriving DecidableEq

/-- What happens to a reader. Calls are told apart by numbers. -/
inductive Event where
  -- A read of up to `want` bytes begins.
  | enters (id want : Nat) (entry : Entry)
  | gives (id : Nat) (data : Bytes) (ending : ReadEnd)
  /-- A call closes the reader; `found` tells whether the script has been started, unless the reader was closed
  before. -/
  | shuts (id : Nat) (found : Option Bool)
  | looks (id : Nat) (finished : Bool)
  | cancels (id : Nat)
  | disconnects (id : Nat)
  /-- The closing of the reader is over, with the fault that it reports. -/
  | closes (id : Nat) (fault : Option Fault)
  | runs (written : Bytes)
  | finishes (result : Except Fault String)
  -- The script brings its output to an end, and then it leaves.
  | seals
  | leaves
  -- Others change the world.
  | outside

namespace Event

def call? : Event → Option Nat
  | .enters id _ _ | .gives id _ _ | .shuts id _ | .looks id _ | .cancels id | .disconnects id | .closes id _ => some id
  | .runs _ | .finishes _ | .seals | .leaves | .outside => none

def isEntry : Event → Bool
  | .enters _ _ _ => true
  | _ => false

def isShut : Event → Bool
  | .shuts _ _ => true
  | _ => false

def isOfScript : Event → Bool
  | .runs _ | .finishes _ | .seals | .leaves => true
  | _ => false

def given : Event → Bytes
  | .gives _ data _ => data
  | _ => []

def written : Event → Bytes
  | .runs written => written
  | _ => []

end Event

def given (events : List Event) : Bytes := events.flatMap Event.given

def written (events : List Event) : Bytes := events.flatMap Event.written

@[simp] theorem given_concat (events : List Event) (e : Event) : given (events ++ [e]) = given events ++ e.given := by
  simp [given]

@[simp] theorem written_concat (events : List Event) (e : Event) :
    written (events ++ [e]) = written events ++ e.written := by
  simp [written]

namespace Use

variable (u : Use)

def entry : Entry := if u.closed then .refused else if u.started then .joins else .starts

def entered : Use := if u.closed then u else { u with started := true, progress := u.progress.begin }

def found : Option Bool := if u.closed then none else some u.started

end Use

/-- One step of a reader or of a call, after the events `past`. How far a call has come is what it has done. A read
takes what it can get of what the script offers, and the script goes on when all of that has been taken. -/
inductive Step (past : List Event) : Use → Event → Use → Prop
  | enter {u : Use} {id want : Nat} (hCall : doneBy Event.call? id past = []) :
    Step past u (.enters id want u.entry) u.entered
  | refuse {u : Use} {id want : Nat} (hCall : doneBy Event.call? id past = [.enters id want .refused]) :
    Step past u (.gives id [] (.fault .readerClosed)) u
  | take {u : Use} {id want n taken : Nat} {entry : Entry} {data : Bytes} {endless : Bool}
      {resume : Signal → World → Background} (hCall : doneBy Event.call? id past = [.enters id want entry])
      (hEntry : entry ≠ .refused) (hOffer : u.progress = .waiting (.offer data endless) resume taken)
      (hGone : u.gone = false) (hWant : n ≤ want) (hLeft : taken + n ≤ data.length)
      (hSome : n = 0 → want = 0 ∨ taken = data.length) :
    Step past u (.gives id ((data.drop taken).take n) .full)
      { u with progress := .offering data endless resume (taken + n) }
  | atEnd {u : Use} {id want : Nat} {entry : Entry} {fault : Option Fault}
      (hCall : doneBy Event.call? id past = [.enters id want entry]) (hEntry : entry ≠ .refused)
      (hGone : u.gone = false) (hEnding : u.ending = some fault) :
    Step past u (.gives id [] (.ofFault fault)) u
  | interrupt {u : Use} {id want : Nat} {entry : Entry}
      (hCall : doneBy Event.call? id past = [.enters id want entry]) (hEntry : entry ≠ .refused)
      (hGone : u.gone = true) : Step past u (.gives id [] (.fault .pipeClosed)) u
  | shut {u : Use} {id : Nat} (hCall : doneBy Event.call? id past = []) :
    Step past u (.shuts id u.found) { u with closed := true }
  | again {u : Use} {id : Nat} (hCall : doneBy Event.call? id past = [.shuts id none]) :
    Step past u (.closes id none) u
  | look {u : Use} {id : Nat} {started : Bool} (hCall : doneBy Event.call? id past = [.shuts id (some started)]) :
    Step past u (.looks id u.finished) u
  | cancel {u : Use} {id : Nat} {started finished : Bool}
      (hCall : doneBy Event.call? id past = [.shuts id (some started), .looks id finished]) :
    Step past u (.cancels id) { u with canceled := true }
  | unused {u : Use} {id : Nat} {finished : Bool}
      (hCall : doneBy Event.call? id past = [.shuts id (some false), .looks id finished, .cancels id]) :
    Step past u (.closes id none) u
  | disconnect {u : Use} {id : Nat} {finished : Bool}
      (hCall : doneBy Event.call? id past = [.shuts id (some true), .looks id finished, .cancels id]) :
    Step past u (.disconnects id) { u with gone := true }
  | close {u : Use} {id : Nat} {finished : Bool} {result : Except Fault String}
      (hCall : doneBy Event.call? id past =
        [.shuts id (some true), .looks id finished, .cancels id, .disconnects id])
      (hDone : u.progress = .done result) :
    Step past u (.closes id (if finished then faultOf result else none)) u
  | run {u : Use} {written : Bytes} {progress : Progress} {w : World}
      (hMoves : Progress.Moves u.canceled u.gone (u.progress, u.world) written (progress, w)) :
    Step past u (.runs written) { u with progress := progress, world := w }
  | finish {u : Use} {result : Except Fault String} (hEnded : u.progress = .ended result) :
    Step past u (.finishes result) { u with progress := .noted result, finished := true }
  | conclude {u : Use} {result : Except Fault String} (hNoted : u.progress = .noted result) :
    Step past u .seals { u with progress := .sealed result, ending := some (faultOf result) }
  | leave {u : Use} {result : Except Fault String} (hSealed : u.progress = .sealed result) :
    Step past u .leaves { u with progress := .done result }
  | outside {u : Use} (w : World) : Step past u .outside { u with world := w }

variable {start : World → Background} {w : World} {events : List Event} {s u v : Use}

theorem enters_inv {id want : Nat} {entry : Entry} (h : Step events u (.enters id want entry) v) :
    doneBy Event.call? id events = [] ∧ entry = u.entry := by
  generalize hEvent : Event.enters id want entry = e at h
  cases h with
  | enter hCall =>
    injection hEvent with hId hWant hEntry
    subst hId
    exact ⟨hCall, hEntry⟩
  | _ => cases hEvent

theorem shuts_inv {id : Nat} {found : Option Bool} (h : Step events u (.shuts id found) v) :
    doneBy Event.call? id events = [] ∧ found = u.found := by
  generalize hEvent : Event.shuts id found = e at h
  cases h with
  | shut hCall =>
    injection hEvent with hId hFound
    subst hId
    exact ⟨hCall, hFound⟩
  | _ => cases hEvent

theorem looks_inv {id : Nat} {finished : Bool} (h : Step events u (.looks id finished) v) :
    (∃ started, doneBy Event.call? id events = [.shuts id (some started)]) ∧ finished = u.finished := by
  generalize hEvent : Event.looks id finished = e at h
  cases h with
  | look hCall =>
    injection hEvent with hId hFinished
    subst hId
    exact ⟨⟨_, hCall⟩, hFinished⟩
  | _ => cases hEvent

/-- A read gives nothing if it was refused or interrupted, and at the end of the output. -/
theorem gives_inv {id : Nat} {data : Bytes} {ending : ReadEnd} (h : Step events u (.gives id data ending) v) :
    ∃ want entry, doneBy Event.call? id events = [.enters id want entry] ∧
      (entry = .refused ∧ data = [] ∧ ending = .fault .readerClosed ∨
        entry ≠ .refused ∧
          (ending = .full ∨ u.gone = true ∧ data = [] ∧ ending = .fault .pipeClosed ∨
            u.gone = false ∧ data = [] ∧ ∃ fault, u.ending = some fault ∧ ending = .ofFault fault)) := by
  generalize hEvent : Event.gives id data ending = e at h
  cases h with
  | refuse hCall =>
    injection hEvent with hId hData hEnding
    subst hId
    exact ⟨_, _, hCall, .inl ⟨rfl, hData, hEnding⟩⟩
  | take hCall hEntry _ _ _ _ _ =>
    injection hEvent with hId hData hEnding
    subst hId
    exact ⟨_, _, hCall, .inr ⟨hEntry, .inl hEnding⟩⟩
  | atEnd hCall hEntry hGone hEnd =>
    injection hEvent with hId hData hEnding
    subst hId
    exact ⟨_, _, hCall, .inr ⟨hEntry, .inr (.inr ⟨hGone, hData, _, hEnd, hEnding⟩)⟩⟩
  | interrupt hCall hEntry hGone =>
    injection hEvent with hId hData hEnding
    subst hId
    exact ⟨_, _, hCall, .inr ⟨hEntry, .inr (.inl ⟨hGone, hData, hEnding⟩)⟩⟩
  | _ => cases hEvent

/-- A closing is over at once if there is nothing to close, and else when the script is. -/
theorem closes_inv {id : Nat} {fault : Option Fault} (h : Step events u (.closes id fault) v) :
    doneBy Event.call? id events = [.shuts id none] ∧ fault = none ∨
      (∃ finished, doneBy Event.call? id events = [.shuts id (some false), .looks id finished, .cancels id] ∧
        fault = none) ∨
      ∃ finished result,
        doneBy Event.call? id events =
          [.shuts id (some true), .looks id finished, .cancels id, .disconnects id] ∧
        u.progress = .done result ∧ fault = if finished then faultOf result else none := by
  generalize hEvent : Event.closes id fault = e at h
  cases h with
  | again hCall =>
    injection hEvent with hId hFault
    subst hId
    exact .inl ⟨hCall, hFault⟩
  | unused hCall =>
    injection hEvent with hId hFault
    subst hId
    exact .inr (.inl ⟨_, hCall, hFault⟩)
  | close hCall hDone =>
    injection hEvent with hId hFault
    subst hId
    exact .inr (.inr ⟨_, _, hCall, hDone, hFault⟩)
  | _ => cases hEvent

theorem runs_inv {written : Bytes} (h : Step events u (.runs written) v) : u.progress.result? = none := by
  generalize hEvent : Event.runs written = e at h
  cases h with
  | run hMoves => exact hMoves.unfinished.2.1
  | _ => cases hEvent

theorem isOfScript_inv {e : Event} (h : Step events u e v) (hScript : e.isOfScript = true) :
    u.progress.isIdle = false ∧ ∀ result, u.progress ≠ .done result := by
  cases h with
  | run hMoves =>
    obtain ⟨hIdle, hResult, -⟩ := hMoves.unfinished
    refine ⟨hIdle, fun result hDone => ?_⟩
    rw [hDone] at hResult
    cases hResult
  | finish hProgress | conclude hProgress | leave hProgress =>
    rw [hProgress]
    exact ⟨rfl, by simp⟩
  | _ => cases hScript

/-- The marks of a reader agree with how far its script has come. -/
structure Use.Sound (u : Use) : Prop where
  started : u.started = !u.progress.isIdle
  finished : u.finished = u.progress.result?.isSome
  ending : u.ending = u.progress.ending?

theorem Use.Sound.step {e : Event} (h : u.Sound) (hStep : Step events u e v) : v.Sound := by
  obtain ⟨hStarted, hFinished, hEnding⟩ := h
  cases hStep with
  | enter hCall =>
    unfold Use.entered
    split
    · exact ⟨hStarted, hFinished, hEnding⟩
    · exact ⟨by simp, by simpa using hFinished, by simpa using hEnding⟩
  | @take _ _ n taken _ data endless resume hCall hEntry hOffer hGone hWant hLeft hSome =>
    obtain ⟨hIdle, hResult, hEnd⟩ := Progress.offering_of_unfinished data endless resume (taken + n)
    rw [hOffer] at hStarted hFinished hEnding
    exact ⟨by rw [hIdle]; exact hStarted, by rw [hResult]; exact hFinished, by rw [hEnd]; exact hEnding⟩
  | run hMoves =>
    obtain ⟨hBegun, hBefore, hIdle, hAfter, hEnd⟩ := hMoves.unfinished
    have hOpen : u.progress.ending? = none := by
      cases hProgress : u.progress.ending? with
      | none => rfl
      | some fault =>
        obtain ⟨result, hResult, -⟩ := Progress.result?_of_ending? hProgress
        rw [hBefore] at hResult
        cases hResult
    exact ⟨by rw [hIdle, hStarted, hBegun], by rw [hAfter, hFinished, hBefore], by rw [hEnd, hEnding, hOpen]⟩
  | finish hEnded =>
    rw [hEnded] at hStarted hEnding
    exact ⟨hStarted, rfl, hEnding⟩
  | conclude hNoted =>
    rw [hNoted] at hStarted hFinished
    exact ⟨hStarted, hFinished, rfl⟩
  | leave hSealed =>
    rw [hSealed] at hStarted hFinished hEnding
    exact ⟨hStarted, hFinished, hEnding⟩
  | _ => exact ⟨hStarted, hFinished, hEnding⟩

/-- What can be told of a reader from what has happened to it. -/
structure Known (events : List Event) (u : Use) : Prop where
  sound : u.Sound
  closed : u.closed = true ↔ ∃ id found, .shuts id found ∈ events
  gone : u.gone = true → u.closed = true
  result : ∀ result, .finishes result ∈ events ↔ u.progress.result? = some result
  refused : ∀ id want, .enters id want .refused ∈ events → u.closed = true
  entered : ∀ id want entry, .enters id want entry ∈ events → entry ≠ .refused → u.started = true

/-- Whether what is known of a reader changes with the event. -/
def Event.tells : Event → Bool
  | .enters _ _ _ | .shuts _ _ | .finishes _ => true
  | _ => false

theorem Known.keep {e : Event} (h : Known events u) (hSound : v.Sound) (hTells : e.tells = false)
    (hClosed : v.closed = u.closed) (hGone : v.gone = true → u.closed = true)
    (hResult : v.progress.result? = u.progress.result?) (hStarted : v.started = u.started) :
    Known (events ++ [e]) v where
  sound := hSound
  closed := by
    have hOther (id : Nat) (found : Option Bool) : Event.shuts id found ≠ e := by
      rintro rfl
      cases hTells
    simp [hClosed, h.closed, hOther]
  gone hTrue := hClosed ▸ hGone hTrue
  result result := by
    have hOther : Event.finishes result ≠ e := by
      rintro rfl
      cases hTells
    simp [hResult, h.result, hOther]
  refused id want hMem := by
    have hOther : Event.enters id want .refused ≠ e := by
      rintro rfl
      cases hTells
    exact hClosed ▸ h.refused id want (by simpa [hOther] using hMem)
  entered id want entry hMem hEntry := by
    have hOther : Event.enters id want entry ≠ e := by
      rintro rfl
      cases hTells
    exact hStarted ▸ h.entered id want entry (by simpa [hOther] using hMem) hEntry

theorem Known.enter (h : Known events u) (hSound : u.entered.Sound) (id want : Nat) :
    Known (events ++ [.enters id want u.entry]) u.entered := by
  have hClosed : u.entered.closed = u.closed := by
    unfold Use.entered
    split <;> rfl
  constructor
  · exact hSound
  · simp [hClosed, h.closed]
  · intro hGone
    rw [hClosed]
    apply h.gone
    unfold Use.entered at hGone
    split at hGone <;> exact hGone
  · intro result
    have hResult : u.entered.progress.result? = u.progress.result? := by
      unfold Use.entered
      split <;> simp
    simp [hResult, h.result]
  · intro id' want' hMem
    rw [hClosed]
    rcases List.mem_append.mp hMem with hMem | hMem
    · exact h.refused id' want' hMem
    · rw [List.mem_singleton, Event.enters.injEq] at hMem
      have hEntry := hMem.2.2
      unfold Use.entry at hEntry
      split at hEntry
      · assumption
      · split at hEntry <;> cases hEntry
  · intro id' want' entry hMem hEntry
    unfold Use.entered
    split
    · next hShut =>
      rcases List.mem_append.mp hMem with hMem | hMem
      · exact h.entered id' want' entry hMem hEntry
      · rw [List.mem_singleton, Event.enters.injEq, Use.entry, if_pos hShut] at hMem
        exact absurd hMem.2.2 hEntry
    · rfl

theorem Known.step {e : Event} (h : Known events u) (hStep : Step events u e v) : Known (events ++ [e]) v := by
  have hSound := h.sound.step hStep
  cases hStep with
  | enter hCall => exact h.enter hSound _ _
  | @take _ _ n taken _ data endless resume hCall hEntry hOffer hGone hWant hLeft hSome =>
    refine h.keep hSound rfl rfl h.gone ?_ rfl
    rw [hOffer]
    exact (Progress.offering_of_unfinished data endless resume (taken + n)).2.1
  | @shut id hCall =>
    have hClosed : ∃ id' found, Event.shuts id' found ∈ events ++ [.shuts id u.found] :=
      ⟨id, u.found, List.mem_append_right _ List.mem_cons_self⟩
    exact ⟨hSound, ⟨fun _ => hClosed, fun _ => rfl⟩, fun _ => rfl, by simpa using h.result, fun _ _ _ => rfl,
      by simpa using h.entered⟩
  | @disconnect id finished hCall =>
    have hShuts : .shuts id (some true) ∈ events := mem_of_doneBy hCall List.mem_cons_self
    exact h.keep hSound rfl rfl (fun _ => h.closed.mpr ⟨id, some true, hShuts⟩) rfl rfl
  | run hMoves =>
    obtain ⟨-, hBefore, -, hAfter, -⟩ := hMoves.unfinished
    exact h.keep hSound rfl rfl h.gone (hAfter.trans hBefore.symm) rfl
  | @finish result hEnded =>
    have hBefore : ∀ result, .finishes result ∉ events := by
      intro result hMem
      rw [h.result, hEnded] at hMem
      cases hMem
    have hResult (result' : Except Fault String) : .finishes result' ∈ events ++ [.finishes result] ↔
        (Progress.noted result).result? = some result' := by
      simp [hBefore, Progress.result?, eq_comm]
    exact ⟨hSound, by simpa using h.closed, h.gone, hResult, by simpa using h.refused, by simpa using h.entered⟩
  | conclude hNoted => exact h.keep hSound rfl rfl h.gone (by rw [hNoted]; rfl) rfl
  | leave hSealed => exact h.keep hSound rfl rfl h.gone (by rw [hSealed]; rfl) rfl
  | _ => exact h.keep hSound rfl rfl h.gone rfl rfl

/-- Readers as they are handed out: with a script that has not been started, or that has. -/
def Use.IsNew (start : World → Background) (w : World) (u : Use) : Prop := u = .fresh start w ∨ u = .begun start w

theorem known (hNew : s.IsNew start w) (h : History Step s events u) : Known events u := by
  refine h.invariant ?_ Known.step
  rcases hNew with rfl | rfl <;>
    exact ⟨⟨rfl, rfl, rfl⟩, by simp [Use.fresh, Use.begun], by simp [Use.fresh, Use.begun],
      by simp [Use.fresh, Use.begun, Progress.result?], by simp, by simp⟩

/-- The call that finds whether the script was started is the first that closes the reader. -/
theorem first_of_found (hNew : s.IsNew start w) (h : History Step s events u) {a b : List Event} {id : Nat}
    {found : Option Bool} (hShut : events = a ++ .shuts id found :: b) :
    found ≠ none ↔ ∀ e ∈ a, e.isShut = false := by
  obtain ⟨u', v', hPast, hStep⟩ := h.split hShut
  have hKnown := known hNew hPast
  rw [(shuts_inv hStep).2, Use.found]
  constructor
  · intro hFound e he
    cases e with
    | shuts j found' =>
      rw [if_pos (hKnown.closed.mpr ⟨j, found', he⟩)] at hFound
      exact absurd rfl hFound
    | _ => rfl
  · intro hNone
    split
    · next hClosed =>
      obtain ⟨j, found', hMem⟩ := hKnown.closed.mp hClosed
      cases hNone _ hMem
    · simp

theorem Known.started_of_finishes {result : Except Fault String} (h : Known events u)
    (hFinishes : .finishes result ∈ events) : u.started = true := by
  rw [h.sound.started, Progress.isIdle_of_result? ((h.result result).mp hFinishes)]
  rfl

theorem Known.finished_of_finishes {result : Except Fault String} (h : Known events u)
    (hFinishes : .finishes result ∈ events) : u.finished = true := by
  rw [h.sound.finished, (h.result result).mp hFinishes]
  rfl

end Pipework.Reader
