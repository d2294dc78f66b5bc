import Pipework.Proofs.Background.Job
import Pipework.Proofs.Background.Undisturbed
import Pipework.Session

/-!
# Waiting for a job

However often a job is waited for, before its script has ended or after, during other calls or alone, the answer
is always the same: the result of the script. A call that kills the job answers with nothing or with the fault
of this result, and with the fault for certain once some call has had its answer. As long as the job was not
killed, the result is that of the script when it is run in the foreground.
-/

namespace Pipework

/-- Whether a run that goes on by itself comes to its end, and has no need of a consumer. -/
def Run.endsAlone {σ α : Type} : Run σ α → Bool
  | .done _ _ => true
  | .wait (.offer _ _) _ _ | .wait .never _ _ => false
  | .wait _ state resume => (resume .ready state).endsAlone

theorem Progress.goes_complete {r : Background} (h : r.endsAlone = true) :
    ∃ written, Goes false false (.ofRun r, r.state) written (.ended r.complete.1, r.complete.2) := by
  induction r using Run.goingOn with
  | done result state => exact ⟨[], .nil⟩
  | wait why state resume hOffer hNever ih =>
    have hRest : (resume .ready state).endsAlone = true := by
      cases why with
      | never => exact absurd rfl hNever
      | offer data endless => cases hOffer
      | _ => exact h
    obtain ⟨written, hGoes⟩ := ih hRest
    exact ⟨_, .cons (.ready hOffer hNever) (.cons .go hGoes)⟩
  | offer data state resume ih => cases h
  | endless data state resume => cases h
  | never state resume => cases h

namespace Job

variable {start : World → Background} {w : World} {events : List Event} {u v : Use}

/-- Waiting for a job is a call that waits for the script, learns its result and answers. -/
theorem wait_follows (h : History Step (.begun start w) events u) {j : Job} {w' : World} (hIs : u.Is j w')
    (hEnds : ∀ why state resume, j.run = .wait why state resume → (Run.wait why w' resume).endsAlone = true)
    {id : Nat} (hNew : doneBy Event.call? id events = []) :
    ∃ middle u', History Step (.begun start w)
        (events ++ .waits id :: middle ++ [.releases id (j.wait w').1, .answers id (j.wait w').1]) u' ∧
      (∀ other, doneBy Event.call? other middle = []) ∧ u'.Is (j.wait w').2.1 (j.wait w').2.2 := by
  obtain ⟨run⟩ := j
  obtain ⟨rfl, hProgress, hCanceled⟩ := hIs
  have hWaits := h.snoc (.wait hNew)
  have hWaited := doneBy_concat hNew (e := .waits id) rfl
  cases run with
  | done result state =>
    have hReleases := hWaits.snoc (.release hWaited hProgress)
    have hAnswers := hReleases.snoc (.answer (doneBy_concat hWaited rfl))
    refine ⟨[], { u with canceled := true }, ?_, fun _ => rfl, rfl, hProgress, by simp [wait, Run.isDone]⟩
    simpa [wait] using hAnswers
  | wait why state resume =>
    obtain ⟨written, hGoes⟩ := Progress.goes_complete (hEnds why state resume rfl)
    have hRuns {past x data y} (hMoves : Progress.Moves false false x data y) :
        Step past { u with progress := x.1, world := x.2 } (.runs data) { u with progress := y.1, world := y.2 } :=
      .run (by simpa [hCanceled rfl] using hMoves)
    have hThen :
        History Step (.begun start w) (events ++ [.waits id]) { u with progress := .waiting why resume 0 } := by
      rw [← show u.progress = .waiting why resume 0 from hProgress]
      exact hWaits
    have hEnd := ends (hGoes.history .runs _ hRuns hThen) rfl
    rw [List.append_assoc] at hEnd
    generalize hMiddle : written.map Event.runs ++ [Event.finishes _, Event.leaves] = middle at hEnd
    have hUnmade (other : Nat) : doneBy Event.call? other middle = [] := by
      rw [← hMiddle, doneBy_append, doneBy_map fun _ => rfl]
      rfl
    have hOwn : doneBy Event.call? id (events ++ [.waits id] ++ middle) = [.waits id] := by
      rw [doneBy_append, hWaited, hUnmade]
      rfl
    have hReleases := hEnd.snoc (.release hOwn rfl)
    have hAnswers := hReleases.snoc (.answer (doneBy_concat hOwn rfl))
    let last := (resume .ready u.world).complete
    refine ⟨middle, ⟨last.2, .done last.1, true, true⟩, ?_, hUnmade, rfl, rfl, ?_⟩
    · simpa [wait, Run.complete] using hAnswers
    · simp [wait, Run.isDone]

theorem finishes_inv {result : Except Fault String} (h : Step events u (.finishes result) v) :
    u.progress = .ended result := by
  generalize hEvent : Event.finishes result = e at h
  cases h with
  | finish hEnded =>
    cases hEvent
    exact hEnded
  | _ => cases hEvent

theorem releases_inv {id : Nat} {result : Except Fault String} (h : Step events u (.releases id result) v) :
    u.progress = .done result := by
  generalize hEvent : Event.releases id result = e at h
  cases h with
  | release hCall hDone =>
    cases hEvent
    exact hDone
  | _ => cases hEvent

theorem answers_inv {id : Nat} {result : Except Fault String} (h : Step events u (.answers id result) v) :
    .releases id result ∈ events := by
  generalize hEvent : Event.answers id result = e at h
  cases h with
  | answer hCall =>
    cases hEvent
    exact mem_of_doneBy hCall (by simp)
  | _ => cases hEvent

/-- A call that kills the job answers when the script has finished; with what, hangs on what it found. -/
theorem kills_cases {id : Nat} {fault : Option Fault} (h : Step events u (.kills id fault) v) :
    ∃ found result, .looks id found ∈ events ∧ u.progress = .done result ∧
      fault = if found then faultOf result else none := by
  generalize hEvent : Event.kills id fault = e at h
  cases h with
  | @kill id' found result hCall hDone =>
    cases hEvent
    exact ⟨found, result, mem_of_doneBy hCall (by simp), hDone, rfl⟩
  | _ => cases hEvent

theorem finishes_of_answers (h : History Step (.begun start w) events u) {id : Nat} {result : Except Fault String}
    (hAnswers : .answers id result ∈ events) : .finishes result ∈ events := by
  obtain ⟨before, after, hSplit⟩ := List.append_of_mem hAnswers
  obtain ⟨x, x', hBefore, hAnswer⟩ := h.split hSplit
  obtain ⟨earlier, later, hEarlier⟩ := List.append_of_mem (answers_inv hAnswer)
  obtain ⟨y, y', hPast, hRelease⟩ := hBefore.split hEarlier
  have hFinishes : .finishes result ∈ earlier := by
    rw [(known hPast).result, releases_inv hRelease]
    rfl
  rw [hSplit, hEarlier]
  exact List.mem_append_left _ (List.mem_append_left _ hFinishes)

theorem finishes_of_kills (h : History Step (.begun start w) events u) {id : Nat} {fault : Option Fault}
    (hKills : .kills id fault ∈ events) :
    ∃ found result, .looks id found ∈ events ∧ .finishes result ∈ events ∧
      fault = if found then faultOf result else none := by
  obtain ⟨before, after, hSplit⟩ := List.append_of_mem hKills
  obtain ⟨x, x', hBefore, hKill⟩ := h.split hSplit
  obtain ⟨found, result, hLooks, hDone, hFault⟩ := kills_cases hKill
  have hFinishes : .finishes result ∈ before := by
    rw [(known hBefore).result, hDone]
    rfl
  rw [hSplit]
  exact ⟨found, result, List.mem_append_left _ hLooks, List.mem_append_left _ hFinishes, hFault⟩

theorem looks_unique (h : History Step (.begun start w) events u) {id : Nat} {found found' : Bool}
    (hFirst : .looks id found ∈ events) (hSecond : .looks id found' ∈ events) : found = found' := by
  by_contra hNe
  obtain ⟨p, q, hFound⟩ := List.append_of_mem hFirst
  obtain ⟨c, d, hFound'⟩ := List.append_of_mem hSecond
  obtain ⟨x, x', -, hLook⟩ := h.split hFound
  obtain ⟨y, y', -, hLook'⟩ := h.split hFound'
  have hOther : Event.looks id found ≠ .looks id found' := by simpa using hNe
  obtain ⟨r, rfl⟩ := first_of_call hFound' (looks_inv hLook').1 hFound rfl hOther
  cases mem_doneBy (looks_inv hLook).1 (List.mem_append_right c List.mem_cons_self) rfl

/-- A call that looks after another one was answered finds the script finished. -/
theorem found_of_answers (h : History Step (.begun start w) events u) {before after : List Event} {id other : Nat}
    {found : Bool} {result : Except Fault String} (hLooks : events = before ++ .looks id found :: after)
    (hAnswers : .answers other result ∈ before) : found = true := by
  obtain ⟨x, x', hBefore, hLook⟩ := h.split hLooks
  have hKnown := known hBefore
  have hResult := (hKnown.result result).mp (finishes_of_answers hBefore hAnswers)
  rw [(looks_inv hLook).2, hKnown.finished, hResult]
  rfl

/-- Whether the event stops the script or changes the world that it works on. -/
def Event.disturbs : Event → Bool
  | .cancels _ | .outside => true
  | _ => false

theorem drain_undisturbed (h : History Step (.begun start w) events u) (hCalm : ∀ e ∈ events, e.disturbs = false)
    (hUnfinished : u.progress.result? = none) :
    u.canceled = false ∧ u.progress.drain u.world = (start w).drain := by
  induction h with
  | nil => exact ⟨rfl, rfl⟩
  | @snoc events u v e h hStep ih =>
    have ih := ih fun e' he' => hCalm e' (List.mem_append_left _ he')
    have hDisturbs : e.disturbs = false := hCalm e (List.mem_append_right _ List.mem_cons_self)
    cases hStep with
    | run hMoves =>
      obtain ⟨-, hBefore, -⟩ := hMoves.unfinished
      obtain ⟨hCanceled, hDrain⟩ := ih hBefore
      rw [hCanceled] at hMoves
      exact ⟨hCanceled, hMoves.ahead.2.trans hDrain⟩
    | release hCall hDone =>
      rw [hDone] at hUnfinished
      cases hUnfinished
    | finish hEnded => cases hUnfinished
    | leave hNoted => cases hUnfinished
    | cancel hCall => cases hDisturbs
    | outside w' => cases hDisturbs
    | _ => exact ih hUnfinished

/-- A script that finished before anybody disturbed it has the result that it has in the foreground. -/
theorem complete_of_finishes {before after : List Event} {result : Except Fault String}
    (h : History Step (.begun start w) events u) (hFinishes : events = before ++ .finishes result :: after)
    (hCalm : ∀ e ∈ before, e.disturbs = false) : (start w).complete.1 = result := by
  obtain ⟨x, x', hBefore, hFinish⟩ := h.split hFinishes
  have hEnded := finishes_inv hFinish
  obtain ⟨-, hDrain⟩ := drain_undisturbed hBefore hCalm (by rw [hEnded]; rfl)
  rw [hEnded] at hDrain
  rw [Run.complete_of_drain hDrain.symm]

/-- A job has one result, however it is waited for and killed. Every call that waits is answered with it, or with
its fault if only that is asked for. A call that kills answers with nothing or with this fault, and with the fault
if it begins after some other call was answered. And unless a call canceled the script before it finished, or others
changed the world meanwhile, the result is that of the same script in the foreground. -/
theorem result_stable {s : Session} {r : Session.Request} {m : Mode} {script : Script} (hParse : s.parse r = .ok script)
    (h : History Step (.begun (s.background r m script) s.world) events u) :
    ∃ result : Except Fault String,
      (∀ id answer, .answers id answer ∈ events → answer = result) ∧
      (∀ id fault, .kills id fault ∈ events → fault = none ∨ fault = faultOf result) ∧
      (∀ before id found after, events = before ++ .looks id found :: after →
        (∃ other answer, .answers other answer ∈ before) →
          ∀ fault, .kills id fault ∈ events → fault = faultOf result) ∧
      ((∀ before after, events = before ++ .finishes result :: after → ∀ e ∈ before, e.disturbs = false) →
        result = (s.runText r m).1) := by
  by_cases hSome : ∃ result, .finishes result ∈ events
  · obtain ⟨result, hFinishes⟩ := hSome
    have hResult {result' : Except Fault String} (hOther : .finishes result' ∈ events) : result' = result :=
      finishes_unique h hOther hFinishes
    refine ⟨result, ?_, ?_, ?_, ?_⟩
    · intro id answer hAnswers
      exact hResult (finishes_of_answers h hAnswers)
    · intro id fault hKills
      obtain ⟨found, result', -, hOther, rfl⟩ := finishes_of_kills h hKills
      rw [hResult hOther]
      cases found
      · exact .inl rfl
      · exact .inr rfl
    · rintro before id found after hLooks ⟨other, answer, hAnswers⟩ fault hKills
      obtain ⟨found', result', hOwn, hOther, rfl⟩ := finishes_of_kills h hKills
      have hFound : found' = found :=
        looks_unique h hOwn (hLooks ▸ List.mem_append_right before List.mem_cons_self)
      rw [hResult hOther, hFound, found_of_answers h hLooks hAnswers, if_pos rfl]
    · intro hCalm
      obtain ⟨before, after, hSplit⟩ := List.append_of_mem hFinishes
      have hComplete := complete_of_finishes h hSplit (hCalm before after hSplit)
      rw [Session.runText, hParse]
      exact hComplete.symm
  · refine ⟨(s.runText r m).1, ?_, ?_, ?_, fun _ => rfl⟩
    · intro id answer hAnswers
      exact absurd ⟨answer, finishes_of_answers h hAnswers⟩ hSome
    · intro id fault hKills
      obtain ⟨-, result, -, hFinishes, -⟩ := finishes_of_kills h hKills
      exact absurd ⟨result, hFinishes⟩ hSome
    · intro before id found after hLooks hAnswers fault hKills
      obtain ⟨-, result, -, hFinishes, -⟩ := finishes_of_kills h hKills
      exact absurd ⟨result, hFinishes⟩ hSome

/-- What happens to a job that is waited for and then killed when its script has ended with `result`. -/
def waitThenKill (result : Except Fault String) : List Event :=
  [.runs [], .finishes result, .leaves, .waits 0, .releases 0 result, .answers 0 result, .looks 1 true, .cancels 1,
    .kills 1 (faultOf result)]

theorem waitThenKill_history {result : Except Fault String} {w' : World} (h : start w = .done result w') :
    ∃ u, History Step (.begun start w) (waitThenKill result) u := by
  have hMoves : Progress.Moves false false (.due start, w) (start w).offered (.ofRun (start w), (start w).state) := .go
  rw [h] at hMoves
  have hRuns : History Step (.begun start w) [.runs []] ⟨w', .ended result, false, false⟩ := .snoc .nil (.run hMoves)
  have hWaits := (ends hRuns rfl).snoc (e := .waits 0) (.wait rfl)
  have hReleases := hWaits.snoc (e := .releases 0 result) (.release rfl rfl)
  have hAnswers := hReleases.snoc (e := .answers 0 result) (.answer rfl)
  have hLooks := hAnswers.snoc (e := .looks 1 true) (.look rfl)
  have hCancels := hLooks.snoc (e := .cancels 1) (.cancel rfl)
  have hOwn : doneBy Event.call? 1 [.runs [], .finishes result, .leaves, .waits 0, .releases 0 result,
      .answers 0 result, .looks 1 true, .cancels 1] = [.looks 1 true, .cancels 1] := rfl
  exact ⟨_, hCancels.snoc (.kill hOwn rfl)⟩

def session : Session := ⟨.bench [], [], some 0, .opened, [], []⟩

def failingText : Session.Request := ⟨"", 1, [], false, "fail a"⟩

def failingFault : Fault := .stageOf ⟨"fail a", [], 1, ""⟩ (.plain "a")

theorem result_stable_failing :
    session.parse failingText = .ok failing ∧
    ∃ u, History Step (.begun (session.background failingText .capture failing) session.world)
        (waitThenKill (.error failingFault)) u ∧
      (session.runText failingText .capture).1 = .error failingFault ∧
      ∀ answer, .kills 1 answer ∈ waitThenKill (.error failingFault) → answer = some failingFault := by
  have hParse : session.parse failingText = .ok failing := by decide +kernel
  have hDone : (session.background failingText .capture failing session.world).isDone = true := by decide +kernel
  have hFault : (session.background failingText .capture failing session.world).complete.1 = .error failingFault := by
    decide +kernel
  refine ⟨hParse, ?_⟩
  cases hRun : session.background failingText .capture failing session.world with
  | wait why state resume =>
    rw [hRun] at hDone
    cases hDone
  | done result w' =>
    have hResult : result = .error failingFault := by simpa [hRun, Run.complete] using hFault
    obtain ⟨u, h⟩ := waitThenKill_history hRun
    rw [hResult] at h
    obtain ⟨stable, hAnswers, -, hKills, hForeground⟩ := result_stable hParse h
    have hStable : .error failingFault = stable := hAnswers 0 _ (by simp [waitThenKill])
    subst hStable
    refine ⟨u, h, (hForeground ?_).symm, fun answer hMem => ?_⟩
    · intro before after hSplit
      simp [waitThenKill, List.cons_eq_append_iff] at hSplit
      obtain ⟨rfl, -⟩ := hSplit
      simp [Event.disturbs]
    · apply hKills [.runs [], .finishes _, .leaves, .waits 0, .releases 0 _, .answers 0 _] 1 true _ rfl _ answer hMem
      exact ⟨0, .error failingFault, by simp⟩

end Job

end Pipework
