import Pipework.Proofs.Background.Follow

/-!
# The life of a reader

A reader is read and closed by any number of calls at once while its script runs. Whatever they do and in
whatever order, the script is started by the first read or never, nothing is read once the reader is closed, and
only the call that closed it can report a fault, which is that of a script that had finished by itself. When
that call is over, so is the script.
-/

namespace Pipework.Reader

variable {start : World → Background} {w : World} {events : List Event} {u v : Use}

/-- What is true of the events in the life of a reader. -/
structure Lifecycle (events : List Event) : Prop where
  /-- A read starts the script if and only if there was neither a read nor a closing before it. -/
  starts : ∀ a id want entry b, events = a ++ .enters id want entry :: b →
    (entry = .starts ↔ ∀ e ∈ a, e.isEntry = false ∧ e.isShut = false)
  /-- The script does nothing before a read has started it. -/
  started : ∀ a e b, events = a ++ e :: b → e.isOfScript = true → ∃ id want, .enters id want .starts ∈ a
  /-- A read that begins after a closing gives no data. -/
  refused : ∀ a id found b, events = a ++ .shuts id found :: b → ∀ j want entry, .enters j want entry ∈ b →
    entry = .refused ∧ ∀ data ending, .gives j data ending ∈ events → data = [] ∧ ending = .fault .readerClosed
  /-- A call that reports a fault is the first that closed the reader, and the script had finished with that fault
  before the call canceled it. -/
  reports : ∀ id fault, .closes id (some fault) ∈ events →
    (∃ a found b, events = a ++ .shuts id found :: b ∧ ∀ e ∈ a, e.isShut = false) ∧
      .cancels id ∈ events ∧
      ∀ a b, events = a ++ .cancels id :: b → ∃ result, faultOf result = some fault ∧ .finishes result ∈ a
  /-- No other call reports one. -/
  reportsOnce : ∀ a id fault b, events = a ++ .closes id (some fault) :: b →
    ∀ j fault', .closes j (some fault') ∉ a ++ b
  /-- When the call is over that closed the reader first, the script has left or never begun. -/
  stopped : ∀ a id found b fault c, events = a ++ .shuts id found :: b ++ .closes id fault :: c →
    (∀ e ∈ a, e.isShut = false) →
      (∀ e ∈ c, e.isOfScript = false) ∧ (.leaves ∈ a ++ .shuts id found :: b ∨ ∀ e ∈ events, e.isOfScript = false)
  /-- The script of a reader that is closed before any read never begins. -/
  unused : ∀ a id found b, events = a ++ .shuts id found :: b → (∀ e ∈ a, e.isEntry = false) →
    ∀ e ∈ events, e.isOfScript = false

theorem started_by_read (h : History Step (.fresh start w) events u) :
    u.started = true → ∃ id want, .enters id want .starts ∈ events := by
  refine h.invariant (P := fun events u => u.started = true → ∃ id want, .enters id want .starts ∈ events)
    (by simp [Use.fresh]) ?_
  intro events u v e ih hStep hStarted
  have hBefore (hSame : u.started = true) : ∃ id want, .enters id want .starts ∈ events ++ [e] := by
    obtain ⟨id, want, hMem⟩ := ih hSame
    exact ⟨id, want, List.mem_append_left _ hMem⟩
  cases hStep with
  | @enter id want hCall =>
    by_cases hSame : u.started = true
    · exact hBefore hSame
    · unfold Use.entered at hStarted
      split at hStarted
      · exact absurd hStarted hSame
      · next hOpen =>
        refine ⟨id, want, List.mem_append_right _ ?_⟩
        rw [List.mem_singleton, Use.entry, if_neg hOpen, if_neg hSame]
  | _ => exact hBefore hStarted

/-- Neither reads nor closings have been seen by a reader that is open and not started. -/
theorem entry_eq_starts (h : History Step (.fresh start w) events u) :
    u.entry = .starts ↔ ∀ e ∈ events, e.isEntry = false ∧ e.isShut = false := by
  have hKnown := known (.inl rfl) h
  constructor
  · intro hStarts e he
    have hOpen : u.closed = false := by
      by_contra hClosed
      rw [Use.entry, if_pos (by simpa using hClosed)] at hStarts
      cases hStarts
    have hIdle : u.started = false := by
      by_contra hStarted
      rw [Use.entry, hOpen, if_neg (by simp), if_pos (by simpa using hStarted)] at hStarts
      cases hStarts
    constructor
    · cases e with
      | enters id want entry =>
        by_cases hRefused : entry = .refused
        · subst hRefused
          rw [hKnown.refused id want he] at hOpen
          cases hOpen
        · rw [hKnown.entered id want entry he hRefused] at hIdle
          cases hIdle
      | _ => rfl
    · cases e with
      | shuts id found =>
        rw [hKnown.closed.mpr ⟨id, found, he⟩] at hOpen
        cases hOpen
      | _ => rfl
  · intro hNone
    have hOpen : ¬u.closed = true := by
      intro hClosed
      obtain ⟨id, found, hMem⟩ := hKnown.closed.mp hClosed
      cases (hNone _ hMem).2
    have hIdle : ¬u.started = true := by
      intro hStarted
      obtain ⟨id, want, hMem⟩ := started_by_read h hStarted
      cases (hNone _ hMem).1
    rw [Use.entry, if_neg hOpen, if_neg hIdle]

theorem starts_iff (h : History Step (.fresh start w) events u) {a b : List Event} {id want : Nat} {entry : Entry}
    (hSplit : events = a ++ .enters id want entry :: b) :
    entry = .starts ↔ ∀ e ∈ a, e.isEntry = false ∧ e.isShut = false := by
  obtain ⟨u, v, hPast, hStep⟩ := h.split hSplit
  rw [(enters_inv hStep).2]
  exact entry_eq_starts hPast

theorem started_before (h : History Step (.fresh start w) events u) {a b : List Event} {e : Event}
    (hSplit : events = a ++ e :: b) (hScript : e.isOfScript = true) : ∃ id want, .enters id want .starts ∈ a := by
  obtain ⟨u, v, hPast, hStep⟩ := h.split hSplit
  apply started_by_read hPast
  rw [(known (.inl rfl) hPast).sound.started, (isOfScript_inv hStep hScript).1]
  rfl

theorem starts_before_shut (h : History Step (.fresh start w) events u) {a b : List Event} {id : Nat}
    {found : Option Bool} (hShut : events = a ++ .shuts id found :: b) {j want : Nat}
    (hStarts : .enters j want .starts ∈ events) : .enters j want .starts ∈ a := by
  obtain ⟨c, d, hSplit⟩ := List.append_of_mem hStarts
  rcases earlier_or_later (hShut.symm.trans hSplit) (by simp) with ⟨r, rfl⟩ | ⟨r, rfl⟩
  · exact List.mem_append_right _ List.mem_cons_self
  · have hNone := (starts_iff h hSplit).mp rfl (.shuts id found) (List.mem_append_right a List.mem_cons_self)
    cases hNone.2

theorem unused_of_shut (h : History Step (.fresh start w) events u) {a b : List Event} {id : Nat}
    {found : Option Bool} (hShut : events = a ++ .shuts id found :: b) (hNone : ∀ j want, .enters j want .starts ∉ a) :
    ∀ e ∈ events, e.isOfScript = false := by
  intro e he
  by_contra hScript
  obtain ⟨c, d, hSplit⟩ := List.append_of_mem he
  obtain ⟨j, want, hStarts⟩ := started_before h hSplit (by simpa using hScript)
  have hMem : .enters j want .starts ∈ events := hSplit ▸ List.mem_append_left _ hStarts
  exact hNone j want (starts_before_shut h hShut hMem)

theorem refused_of_shut (h : History Step (.fresh start w) events u) {a b : List Event} {id j want : Nat}
    {found : Option Bool} {entry : Entry} (hShut : events = a ++ .shuts id found :: b)
    (hEnters : .enters j want entry ∈ b) :
    entry = .refused ∧
      ∀ data ending, .gives j data ending ∈ events → data = [] ∧ ending = .fault .readerClosed := by
  obtain ⟨c, d, rfl⟩ := List.append_of_mem hEnters
  have hSplit : events = (a ++ .shuts id found :: c) ++ .enters j want entry :: d := by simp [hShut]
  obtain ⟨u', v', hPast, hStep⟩ := h.split hSplit
  obtain ⟨hNew, hEntry⟩ := enters_inv hStep
  have hClosed : u'.closed = true :=
    (known (.inl rfl) hPast).closed.mpr ⟨id, found, List.mem_append_right a List.mem_cons_self⟩
  rw [Use.entry, if_pos hClosed] at hEntry
  refine ⟨hEntry, fun data ending hGives => ?_⟩
  obtain ⟨p, q, hGives⟩ := List.append_of_mem hGives
  obtain ⟨x, y, -, hGive⟩ := h.split hGives
  obtain ⟨want', entry', hCall, hAnswer⟩ := gives_inv hGive
  -- The read that gives is the one that was refused.
  obtain ⟨r, rfl⟩ := first_of_call hSplit hNew hGives rfl (by simp)
  have hOwn := mem_doneBy hCall (List.mem_append_right _ List.mem_cons_self) rfl
  rw [List.mem_singleton, Event.enters.injEq] at hOwn
  obtain ⟨-, hNothing⟩ | ⟨hOther, -⟩ := hAnswer
  · exact hNothing
  · exact absurd (hOwn.2.2.symm.trans hEntry) hOther

/-- A call that reports a fault has found the script started and, before it canceled it, finished. -/
theorem reports_inv (h : History Step (.fresh start w) events u) {a b : List Event} {id : Nat} {fault : Fault}
    (hCloses : events = a ++ .closes id (some fault) :: b) :
    doneBy Event.call? id a = [.shuts id (some true), .looks id true, .cancels id, .disconnects id] ∧
      ∃ result, faultOf result = some fault ∧ .finishes result ∈ a := by
  obtain ⟨u', v', hPast, hStep⟩ := h.split hCloses
  obtain ⟨-, hFault⟩ | ⟨_, -, hFault⟩ | ⟨finished, result, hCall, hDone, hFault⟩ := closes_inv hStep
  · cases hFault
  · cases hFault
  · cases finished with
    | false => cases hFault
    | true =>
      refine ⟨hCall, result, hFault.symm, ?_⟩
      rw [(known (.inl rfl) hPast).result, hDone]
      rfl

theorem finishes_before_cancels (h : History Step (.fresh start w) events u) {a b p q : List Event} {id : Nat}
    {result : Except Fault String} (hLooks : events = a ++ .looks id true :: b)
    (hFinishes : .finishes result ∈ events) (hCancels : events = p ++ .cancels id :: q) : .finishes result ∈ p := by
  obtain ⟨u', v', hPast, hStep⟩ := h.split hLooks
  obtain ⟨⟨started, hCall⟩, hFinished⟩ := looks_inv hStep
  have hKnown := known (.inl rfl) hPast
  have hSome : u'.progress.result?.isSome = true := hKnown.sound.finished.symm.trans hFinished.symm
  obtain ⟨result', hResult⟩ := Option.isSome_iff_exists.mp hSome
  have hEarly : .finishes result' ∈ a := (hKnown.result result').mpr hResult
  obtain rfl : result' = result := by
    have hLate := (known (.inl rfl) h).result
    have hBoth : .finishes result' ∈ events := hLooks ▸ List.mem_append_left _ hEarly
    rw [hLate] at hFinishes hBoth
    exact Option.some.inj (hBoth.symm.trans hFinishes)
  rcases earlier_or_later (hCancels.symm.trans hLooks) (by simp) with ⟨r, rfl⟩ | ⟨r, rfl⟩
  · exact List.mem_append_left _ hEarly
  · -- A call looks before it cancels.
    have hOwn := mem_doneBy hCall (List.mem_append_right p List.mem_cons_self) rfl
    simp at hOwn

theorem reports_first (h : History Step (.fresh start w) events u) {a b : List Event} {id : Nat} {fault : Fault}
    (hCloses : events = a ++ .closes id (some fault) :: b) :
    ∃ c d, events = c ++ .shuts id (some true) :: d ∧ ∀ e ∈ c, e.isShut = false := by
  obtain ⟨hCall, -⟩ := reports_inv h hCloses
  obtain ⟨c, d, rfl⟩ := List.append_of_mem (mem_of_doneBy hCall List.mem_cons_self)
  rw [List.append_assoc, List.cons_append] at hCloses
  exact ⟨c, _, hCloses, (first_of_found (.inl rfl) h hCloses).mp (by simp)⟩

theorem first_unique {a b c d : List Event} {id j : Nat} {found found' : Option Bool}
    (h : events = a ++ .shuts id found :: b) (hFirst : ∀ e ∈ a, e.isShut = false)
    (h' : events = c ++ .shuts j found' :: d) (hFirst' : ∀ e ∈ c, e.isShut = false) : id = j := by
  by_contra hNe
  rcases earlier_or_later (h.symm.trans h') (by simp [hNe]) with ⟨r, rfl⟩ | ⟨r, rfl⟩
  · cases hFirst _ (List.mem_append_right c List.mem_cons_self)
  · cases hFirst' _ (List.mem_append_right a List.mem_cons_self)

theorem reports_once (h : History Step (.fresh start w) events u) {a b : List Event} {id j : Nat}
    {fault fault' : Fault} (hCloses : events = a ++ .closes id (some fault) :: b) : .closes j (some fault') ∉ a := by
  intro hMem
  have hSame : j = id := by
    obtain ⟨p, q, rfl⟩ := List.append_of_mem hMem
    obtain ⟨c, d, hShut, hFirst⟩ := reports_first h hCloses
    rw [List.append_assoc, List.cons_append] at hCloses
    obtain ⟨c', d', hShut', hFirst'⟩ := reports_first h hCloses
    exact first_unique hShut' hFirst' hShut hFirst
  subst hSame
  have hOwn := mem_doneBy (reports_inv h hCloses).1 hMem rfl
  simp at hOwn

def Use.IsOver (u : Use) : Prop := u.closed = true ∧ u.started = false ∨ ∃ result, u.progress = .done result

theorem Use.IsOver.step {e : Event} (h : u.IsOver) (hSound : u.Sound) (hStep : Step events u e v) :
    v.IsOver ∧ e.isOfScript = false := by
  have hScript : e.isOfScript = false := by
    by_contra hScript
    obtain ⟨hIdle, hDone⟩ := isOfScript_inv hStep (by simpa using hScript)
    obtain ⟨-, hStarted⟩ | ⟨result, hProgress⟩ := h
    · rw [hSound.started, hIdle] at hStarted
      cases hStarted
    · exact hDone result hProgress
  refine ⟨?_, hScript⟩
  cases hStep with
  | enter hCall =>
    unfold Use.entered
    split
    · exact h
    · next hOpen =>
      obtain ⟨hClosed, -⟩ | ⟨result, hDone⟩ := h
      · exact absurd hClosed hOpen
      · exact .inr ⟨result, by simp [hDone, Progress.begin]⟩
  | take hCall hEntry hOffer _ _ _ _ =>
    obtain ⟨-, hStarted⟩ | ⟨result, hDone⟩ := h
    · rw [hSound.started, hOffer] at hStarted
      cases hStarted
    · rw [hOffer] at hDone
      cases hDone
  | shut hCall =>
    obtain ⟨-, hStarted⟩ | hDone := h
    · exact .inl ⟨rfl, hStarted⟩
    · exact .inr hDone
  | run _ | finish _ | conclude _ | leave _ => cases hScript
  | _ => exact h

theorem leaves_of_done (h : History Step (.fresh start w) events u) :
    ∀ result, u.progress = .done result → .leaves ∈ events := by
  refine h.invariant (P := fun events u => ∀ result, u.progress = .done result → .leaves ∈ events)
    (by simp [Use.fresh]) ?_
  intro events u v e ih hStep result hDone
  have hBefore (hSame : u.progress = .done result) : .leaves ∈ events ++ [e] := List.mem_append_left _ (ih result hSame)
  cases hStep with
  | enter hCall =>
    apply hBefore
    unfold Use.entered at hDone
    split at hDone
    · exact hDone
    · cases hProgress : u.progress with
      | idle start =>
        rw [hProgress] at hDone
        cases hDone
      | _ =>
        rw [hProgress] at hDone
        exact hDone
  | @take _ _ n taken _ data endless resume hCall hEntry hOffer hGone hWant hLeft hSome =>
    obtain ⟨-, hResult, -⟩ := Progress.offering_of_unfinished data endless resume (taken + n)
    dsimp only at hDone
    rw [hDone] at hResult
    cases hResult
  | run hMoves =>
    obtain ⟨-, -, -, hResult, -⟩ := hMoves.unfinished
    dsimp only at hDone hResult
    rw [hDone] at hResult
    cases hResult
  | finish _ | conclude _ => cases hDone
  | leave _ => exact List.mem_append_right _ List.mem_cons_self
  | _ => exact hBefore hDone

theorem isOver_of_closes {a b : List Event} {id : Nat} {found : Option Bool} {fault : Option Fault}
    (h : History Step (.fresh start w) (a ++ .shuts id found :: b ++ [.closes id fault]) u)
    (hFirst : ∀ e ∈ a, e.isShut = false) : u.IsOver := by
  obtain ⟨u', hPast, hStep⟩ := h.last
  have hShuts : .shuts id found ∈ a ++ .shuts id found :: b := List.mem_append_right a List.mem_cons_self
  have hFound := (first_of_found (.inl rfl) hPast rfl).mpr hFirst
  obtain ⟨hCall, -⟩ | ⟨finished, hCall, -⟩ | ⟨finished, result, hCall, hDone, -⟩ := closes_inv hStep
  · have hOwn := mem_doneBy hCall hShuts rfl
    rw [List.mem_singleton, Event.shuts.injEq] at hOwn
    exact absurd hOwn.2 hFound
  · obtain rfl : found = some false := by
      have hOwn := mem_doneBy hCall hShuts rfl
      simpa using hOwn
    refine .inl ⟨(known (.inl rfl) h).closed.mpr ⟨id, _, List.mem_append_left _ hShuts⟩, ?_⟩
    by_contra hStarted
    obtain ⟨j, want, hStarts⟩ := started_by_read h (by simpa using hStarted)
    rw [List.append_assoc, List.cons_append] at h
    obtain ⟨x, y, hBefore, hShut⟩ := h.split rfl
    have hThen : x.started = true :=
      (known (.inl rfl) hBefore).entered j want .starts (starts_before_shut h rfl (by simpa using hStarts)) (by simp)
    have hOpen := (shuts_inv hShut).2
    unfold Use.found at hOpen
    split at hOpen
    · cases hOpen
    · rw [hThen] at hOpen
      cases hOpen
  · have hSame : u.progress = u'.progress := by
      generalize hEvent : Event.closes id fault = e at hStep
      cases hStep with
      | again _ | unused _ | close _ _ => rfl
      | _ => cases hEvent
    exact .inr ⟨result, hSame.trans hDone⟩

theorem stopped_of_closes (h : History Step (.fresh start w) events u) {a b c : List Event} {id : Nat}
    {found : Option Bool} {fault : Option Fault} (hSplit : events = a ++ .shuts id found :: b ++ .closes id fault :: c)
    (hFirst : ∀ e ∈ a, e.isShut = false) :
    (∀ e ∈ c, e.isOfScript = false) ∧
      (.leaves ∈ a ++ .shuts id found :: b ∨ ∀ e ∈ events, e.isOfScript = false) := by
  constructor
  · intro e he
    obtain ⟨c, d, rfl⟩ := List.append_of_mem he
    have hLater : events = (a ++ .shuts id found :: b ++ [.closes id fault] ++ c) ++ e :: d := by simp [hSplit]
    obtain ⟨x, y, hPast, hStep⟩ := h.split hLater
    have hOver : x.IsOver ∧ x.Sound := by
      refine hPast.keeps (P := fun u => u.IsOver ∧ u.Sound) ?_ ?_
      · intro past t t' e' hOver hStep
        exact ⟨(hOver.1.step hOver.2 hStep).1, hOver.2.step hStep⟩
      · intro u' h'
        exact ⟨isOver_of_closes h' hFirst, (known (.inl rfl) h').sound⟩
    exact (hOver.1.step hOver.2 hStep).2
  · have hShut : events = a ++ .shuts id found :: (b ++ .closes id fault :: c) := by simp [hSplit]
    obtain ⟨x, y, hPast, hStep⟩ := h.split hSplit
    have hThen := hPast.snoc hStep
    rcases isOver_of_closes hThen hFirst with ⟨-, hIdle⟩ | ⟨result, hDone⟩
    · refine .inr (unused_of_shut h hShut fun j want hMem => ?_)
      have hStarted := (known (.inl rfl) hThen).entered j want .starts (by simp [hMem]) (by simp)
      rw [hIdle] at hStarted
      cases hStarted
    · refine .inl ?_
      simpa using leaves_of_done hThen result hDone

/-- Every reader lives such a life, and a read that was refused can answer at once. -/
theorem lifecycle (h : History Step (.fresh start w) events u) :
    Lifecycle events ∧
      ∀ id want, doneBy Event.call? id events = [.enters id want .refused] →
        ∃ v, Step events u (.gives id [] (.fault .readerClosed)) v := by
  refine ⟨⟨?_, ?_, ?_, ?_, ?_, ?_, ?_⟩, fun id want hCall => ⟨u, .refuse hCall⟩⟩
  · intro a id want entry b hSplit
    exact starts_iff h hSplit
  · intro a e b hSplit hScript
    exact started_before h hSplit hScript
  · intro a id found b hShut j want entry hEnters
    exact refused_of_shut h hShut hEnters
  · intro id fault hMem
    obtain ⟨a, b, hCloses⟩ := List.append_of_mem hMem
    obtain ⟨hCall, result, hFault, hFinishes⟩ := reports_inv h hCloses
    obtain ⟨c, d, hShut, hFirst⟩ := reports_first h hCloses
    have hIn {e : Event} (he : e ∈ a) : e ∈ events := hCloses ▸ List.mem_append_left _ he
    refine ⟨⟨c, _, d, hShut, hFirst⟩, hIn (mem_of_doneBy hCall (by simp)), fun p q hCancels => ⟨result, hFault, ?_⟩⟩
    obtain ⟨x, y, hLooks⟩ := List.append_of_mem (hIn (mem_of_doneBy (e := .looks id true) hCall (by simp)))
    exact finishes_before_cancels h hLooks (hIn hFinishes) hCancels
  · intro a id fault b hCloses j fault' hMem
    rcases List.mem_append.mp hMem with hMem | hMem
    · exact reports_once h hCloses hMem
    · obtain ⟨p, q, rfl⟩ := List.append_of_mem hMem
      have hOther : events = (a ++ .closes id (some fault) :: p) ++ .closes j (some fault') :: q := by simp [hCloses]
      exact reports_once h hOther (List.mem_append_right a List.mem_cons_self)
  · intro a id found b fault c hSplit hFirst
    exact stopped_of_closes h hSplit hFirst
  · intro a id found b hShut hNone
    refine unused_of_shut h hShut fun j want hMem => ?_
    cases hNone _ hMem

theorem lifecycle_complaining :
    ∃ events u, History Step (.fresh (complaining.execute [] ⟨[], some 0, false⟩ .stream) (.bench [])) events u ∧
      Lifecycle events ∧ (∃ id fault, .closes id (some fault) ∈ events) ∧
      ∃ id want, .enters id want .refused ∈ events := by
  obtain ⟨events, u, result, fault, w', h, hIs, hFault, -⟩ := complaining_history
  obtain ⟨id, more, v, hClose, hIs', hCloses⟩ := close_follows (.inl rfl) h hIs
  obtain ⟨j, hCall⟩ := exists_unmade Event.call? (events ++ more)
  have hEnter : Step (events ++ more) v (.enters j 1 v.entry) v.entered := .enter hCall
  rw [Use.entry, if_pos hIs'.1] at hEnter
  have hRead := hClose.snoc hEnter
  refine ⟨_, _, hRead, (lifecycle hRead).1, ⟨id, fault, ?_⟩, j, 1, by simp⟩
  have hReports : Event.closes id (some fault) ∈ more := by
    simpa [Reader.close, stopRun, Run.isDone, hFault] using hCloses
  simp [hReports]

end Pipework.Reader
