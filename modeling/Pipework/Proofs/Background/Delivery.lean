import Pipework.Proofs.Background.Reader

/-!
# What reads give

What the reads of a reader have given, one after the other, is the beginning of what the script has written. A read
that comes to the end does so when all of that has been given, and the script has finished by then. The first call that
closes the reader after that reports how the script has ended.
-/

namespace Pipework.Reader

variable {start : World → Background} {w : World} {events : List Event} {s u v : Use}

/-- All that has been written is given or left, unless nobody takes it any more. -/
structure Delivered (events : List Event) (u : Use) : Prop where
  all : u.gone = false → given events ++ u.progress.left = written events
  beginning : given events <+: written events

theorem Delivered.keep {e : Event} (h : Delivered events u) (hGiven : e.given = []) (hWritten : e.written = [])
    (hGone : v.gone = false → u.gone = false) (hLeft : u.gone = false → v.progress.left = u.progress.left) :
    Delivered (events ++ [e]) v := by
  constructor
  · intro hTaken
    rw [given_concat, written_concat, hGiven, hWritten, List.append_nil, List.append_nil, hLeft (hGone hTaken)]
    exact h.all (hGone hTaken)
  · rw [given_concat, written_concat, hGiven, hWritten, List.append_nil, List.append_nil]
    exact h.beginning

theorem Delivered.run {written : Bytes} {progress : Progress} {w : World} (h : Delivered events u)
    (hMoves : Progress.Moves u.canceled u.gone (u.progress, u.world) written (progress, w)) :
    Delivered (events ++ [.runs written]) { u with progress := progress, world := w } := by
  generalize hBefore : (u.progress, u.world) = x at hMoves
  generalize hAfter : (progress, w) = y at hMoves
  cases hMoves with
  | @go next w' =>
    cases hAfter
    obtain ⟨hDue, -⟩ := Prod.mk.inj hBefore
    constructor
    · intro hGone
      have hAll := h.all hGone
      rw [hDue, show (Progress.due next).left = [] from rfl, List.append_nil] at hAll
      rw [given_concat, written_concat, hAll, Progress.left_ofRun]
      simp [Event.given, Event.written]
    · rw [given_concat, written_concat, show (Event.runs _).given = [] from rfl, List.append_nil]
      exact h.beginning.trans (List.prefix_append _ _)
  | @ready why resume taken w' hOffer hNever =>
    cases hAfter
    obtain ⟨hWaiting, -⟩ := Prod.mk.inj hBefore
    refine h.keep rfl rfl id fun _ => ?_
    rw [hWaiting]
    simp [Progress.left, Wait.offered_of_not_offer hOffer]
  | @stop why resume taken w' hStop =>
    cases hAfter
    obtain ⟨hWaiting, -⟩ := Prod.mk.inj hBefore
    refine h.keep rfl rfl id fun hGone => ?_
    cases hOffer : why.isOffer with
    | true =>
      rw [hOffer, if_pos rfl, hGone] at hStop
      cases hStop
    | false =>
      rw [hWaiting]
      simp [Progress.left, Wait.offered_of_not_offer hOffer]

theorem Delivered.step {e : Event} (h : Delivered events u) (hStep : Step events u e v) :
    Delivered (events ++ [e]) v := by
  cases hStep with
  | enter hCall =>
    unfold Use.entered
    split
    · exact h.keep rfl rfl id fun _ => rfl
    · exact h.keep rfl rfl id fun _ => Progress.left_begin u.progress
  | @take _ _ n taken _ data endless resume hCall hEntry hOffer hGone hWant hLeft hSome =>
    have hAll := h.all hGone
    have hNow : given events ++ (data.drop taken).take n ++ data.drop (taken + n) = written events := by
      rw [← hAll, hOffer, List.append_assoc, ← List.drop_drop, List.take_append_drop]
      rfl
    constructor
    · intro _
      rw [given_concat, written_concat, Progress.left_offering]
      simpa [Event.given, Event.written] using hNow
    · refine ⟨data.drop (taken + n), ?_⟩
      simpa [Event.given, Event.written] using hNow
  | run hMoves => exact h.run hMoves
  | finish hProgress | conclude hProgress | leave hProgress =>
    refine h.keep rfl rfl id fun _ => ?_
    rw [hProgress]
    rfl
  | disconnect hCall => exact h.keep rfl rfl (by simp) fun _ => rfl
  | _ => exact h.keep rfl rfl id fun _ => rfl

theorem delivered (hNew : s.IsNew start w) (h : History Step s events u) : Delivered events u := by
  refine h.invariant ?_ Delivered.step
  rcases hNew with rfl | rfl <;> exact ⟨fun _ => rfl, List.nil_prefix⟩

theorem written_of_finishes (hNew : s.IsNew start w) {a b : List Event} {result : Except Fault String}
    (h : History Step s (a ++ b) u) (hFinishes : .finishes result ∈ a) : written (a ++ b) = written a := by
  have hNone : ∀ e ∈ b, e.written = [] := by
    intro e he
    cases e with
    | runs written =>
      obtain ⟨c, d, rfl⟩ := List.append_of_mem he
      rw [← List.append_assoc] at h
      obtain ⟨x, y, hPast, hStep⟩ := h.split rfl
      have hResult := ((known hNew hPast).result result).mp (List.mem_append_left c hFinishes)
      rw [runs_inv hStep] at hResult
      cases hResult
    | _ => rfl
  rw [written, written, List.flatMap_append, List.flatMap_eq_nil_iff.mpr hNone, List.append_nil]

/-- A read comes to the end when the script has finished and all that it wrote has been given. -/
theorem ended_read (hNew : s.IsNew start w) (h : History Step s events u) {a b : List Event} {id : Nat}
    {data : Bytes} {ending : ReadEnd} (hGives : events = a ++ .gives id data ending :: b) (hEnd : ending ≠ .full)
    (hOpen : ∀ e ∈ a, e.isShut = false) :
    ∃ result, .finishes result ∈ a ∧ ending = .ofFault (faultOf result) ∧ data = [] ∧ given a = written events := by
  obtain ⟨x, y, hPast, hStep⟩ := h.split hGives
  have hKnown := known hNew hPast
  have hNotClosed : ¬x.closed = true := by
    intro hClosed
    obtain ⟨j, found, hMem⟩ := hKnown.closed.mp hClosed
    cases hOpen _ hMem
  obtain ⟨want, entry, hCall, hAnswer⟩ := gives_inv hStep
  obtain ⟨rfl, -⟩ | ⟨-, hFull | ⟨hGone, -⟩ | ⟨hGone, hData, fault, hEnding, rfl⟩⟩ := hAnswer
  · exact absurd (hKnown.refused id want (mem_of_doneBy hCall List.mem_cons_self)) hNotClosed
  · exact absurd hFull hEnd
  · exact absurd (hKnown.gone hGone) hNotClosed
  · have hEnding' : x.progress.ending? = some fault := hKnown.sound.ending.symm.trans hEnding
    obtain ⟨result, hResult, rfl⟩ := Progress.result?_of_ending? hEnding'
    have hFinishes : .finishes result ∈ a := (hKnown.result result).mpr hResult
    refine ⟨result, hFinishes, rfl, hData, ?_⟩
    have hAll := (delivered hNew hPast).all hGone
    rw [Progress.left_of_ending? hEnding', List.append_nil] at hAll
    rw [hAll, hGives]
    rw [hGives] at h
    exact (written_of_finishes hNew h hFinishes).symm

/-- The first call that closes the reader after the script has finished reports how. -/
theorem closes_of_finishes (hNew : s.IsNew start w) (h : History Step s events u) {a b : List Event} {id : Nat}
    {found : Option Bool} {fault : Option Fault} {result : Except Fault String}
    (hShut : events = a ++ .shuts id found :: b) (hOpen : ∀ e ∈ a, e.isShut = false) (hFinishes : .finishes result ∈ a)
    (hCloses : .closes id fault ∈ events) : fault = faultOf result := by
  obtain ⟨x, y, hPast, hStep⟩ := h.split hShut
  obtain ⟨hCallNew, hFound⟩ := shuts_inv hStep
  obtain rfl : found = some true := by
    have hSome := (first_of_found hNew h hShut).mpr hOpen
    rw [hFound] at hSome ⊢
    unfold Use.found at hSome ⊢
    split at hSome
    · exact absurd rfl hSome
    · next hNotClosed => rw [if_neg hNotClosed, (known hNew hPast).started_of_finishes hFinishes]
  obtain ⟨p, q, hCloses⟩ := List.append_of_mem hCloses
  obtain ⟨x', y', hPast', hStep'⟩ := h.split hCloses
  obtain ⟨r, hLater⟩ := first_of_call hShut hCallNew hCloses rfl (by simp)
  have hShuts : .shuts id (some true) ∈ p := hLater ▸ List.mem_append_right a List.mem_cons_self
  obtain ⟨hCall, -⟩ | ⟨finished, hCall, -⟩ | ⟨finished, result', hCall, hDone, rfl⟩ := closes_inv hStep'
  · simpa using mem_doneBy hCall hShuts rfl
  · simpa using mem_doneBy hCall hShuts rfl
  · obtain rfl : finished = true := by
      obtain ⟨l, m, hLooks⟩ := List.append_of_mem (mem_of_doneBy (e := .looks id finished) hCall (by simp))
      obtain ⟨z, z', hPastLook, hLook⟩ := hPast'.split hLooks
      -- The call looks after it has closed the reader, when the script has finished.
      obtain ⟨r', hEarlier⟩ := first_of_call hLater hCallNew hLooks rfl (by simp)
      rw [(looks_inv hLook).2]
      exact (known hNew hPastLook).finished_of_finishes (hEarlier ▸ List.mem_append_left _ hFinishes)
    have hResult := ((known hNew hPast').result result).mp (hLater ▸ List.mem_append_left _ hFinishes)
    rw [hDone] at hResult
    cases hResult
    rfl

theorem leaves (h : History Step s events u) {result : Except Fault String}
    (hResult : u.progress.result? = some result) :
    ∃ more v, History Step s (events ++ more) v ∧ v.progress = .done result ∧ v.closed = u.closed ∧
      ∀ e ∈ more, e.isOfScript = true := by
  cases hProgress : u.progress with
  | noted result' =>
    rw [hProgress] at hResult
    cases hResult
    have hLeave := (h.snoc (.conclude hProgress)).snoc (.leave rfl)
    rw [List.append_assoc] at hLeave
    exact ⟨_, _, hLeave, rfl, rfl, by simp [Event.isOfScript]⟩
  | sealed result' =>
    rw [hProgress] at hResult
    cases hResult
    exact ⟨[.leaves], _, h.snoc (.leave hProgress), rfl, rfl, by simp [Event.isOfScript]⟩
  | done result' =>
    rw [hProgress] at hResult
    cases hResult
    exact ⟨[], u, by simpa using h, hProgress, rfl, by simp⟩
  | _ =>
    rw [hProgress] at hResult
    cases hResult

theorem doneBy_of_script {id : Nat} (h : ∀ e ∈ events, e.isOfScript = true) : doneBy Event.call? id events = [] := by
  rw [doneBy, List.filter_eq_nil_iff]
  intro e he
  have hScript := h e he
  cases e with
  | runs written => simp [Event.call?]
  | finishes result => simp [Event.call?]
  | seals => simp [Event.call?]
  | leaves => simp [Event.call?]
  | _ => cases hScript

def disconnecting (id : Nat) (finished : Bool) : List Event :=
  [.shuts id (some true), .looks id finished, .cancels id, .disconnects id]

theorem disconnects (h : History Step s events u) {id : Nat} (hCall : doneBy Event.call? id events = [])
    (hFound : u.found = some true) :
    History Step s (events ++ disconnecting id u.finished) { u with closed := true, canceled := true, gone := true } ∧
      doneBy Event.call? id (events ++ disconnecting id u.finished) = disconnecting id u.finished := by
  have hShut := h.snoc (.shut hCall)
  rw [hFound] at hShut
  have hShutBy := doneBy_concat hCall (e := .shuts id (some true)) rfl
  have hLook := hShut.snoc (.look hShutBy)
  have hLookBy := doneBy_concat hShutBy (e := .looks id u.finished) rfl
  have hCancel := hLook.snoc (.cancel hLookBy)
  have hCancelBy := doneBy_concat hLookBy (e := .cancels id) rfl
  have hDisconnect := hCancel.snoc (.disconnect hCancelBy)
  have hDisconnectBy := doneBy_concat hCancelBy (e := .disconnects id) rfl
  simp only [List.append_assoc] at hDisconnect hDisconnectBy
  exact ⟨hDisconnect, hDisconnectBy⟩

/-- A call that closes the reader after the script has finished comes to its end whatever others do. -/
theorem can_close (hNew : s.IsNew start w) (h : History Step s events u) {id : Nat} {result : Except Fault String}
    (hFinishes : .finishes result ∈ events) (hOpen : ∀ e ∈ events, e.isShut = false)
    (hCall : doneBy Event.call? id events = []) :
    ∃ more v, History Step s (events ++ more) v ∧ .closes id (faultOf result) ∈ more ∧
      ∀ e ∈ more, e.call? = some id ∨ e.isOfScript = true := by
  have hNotClosed : ¬u.closed = true := by
    intro hClosed
    obtain ⟨j, found, hMem⟩ := (known hNew h).closed.mp hClosed
    cases hOpen _ hMem
  obtain ⟨more, v, hLeft, hDone, hSame, hScript⟩ := leaves h (((known hNew h).result result).mp hFinishes)
  have hKnown := known hNew hLeft
  have hStill : .finishes result ∈ events ++ more := List.mem_append_left more hFinishes
  have hFound : v.found = some true := by
    rw [Use.found, hSame, if_neg hNotClosed, hKnown.started_of_finishes hStill]
  have hCall' : doneBy Event.call? id (events ++ more) = [] := by
    rw [doneBy_append, hCall, doneBy_of_script hScript]
    rfl
  obtain ⟨hDisconnects, hOwn⟩ := disconnects hLeft hCall' hFound
  rw [hKnown.finished_of_finishes hStill] at hDisconnects hOwn
  have hClose := hDisconnects.snoc (.close hOwn hDone)
  simp only [List.append_assoc] at hClose
  refine ⟨_, _, hClose, by simp, ?_⟩
  intro e he
  rcases List.mem_append.mp he with he | he
  · exact .inr (hScript e he)
  · refine .inl ?_
    simp only [disconnecting, List.cons_append, List.nil_append, List.mem_cons, List.not_mem_nil, or_false] at he
    rcases he with rfl | rfl | rfl | rfl | rfl <;> rfl

end Pipework.Reader
