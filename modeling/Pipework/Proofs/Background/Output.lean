import Pipework.Proofs.Background.Follow

/-!
# What a reader gives of a script

Of all that a script does, only its last statement writes to the consumer: the statements before have their output
captured, and a run that captures never offers anything. So the reads of a reader give the beginning of what the last
statement writes, and when they come to the end, all of it. One who reads to the end and then closes the reader
learns how the script has ended.
-/

namespace Pipework

/-- What a run that waits can have offered before it goes on; something endless is offered any number of times. -/
inductive Wait.Offers : Wait → (data : Bytes) → Prop
  | once {why : Wait} : Offers why why.offered
  | again {data more : Bytes} (h : Offers (.offer data true) more) : Offers (.offer data true) (data ++ more)

theorem Wait.Offers.eq_nil {why : Wait} {data : Bytes} (h : why.Offers data) (hOffer : why.isOffer = false) :
    data = [] := by
  cases h with
  | once => exact Wait.offered_of_not_offer hOffer
  | again _ => cases hOffer

theorem Wait.Offers.append {data x y : Bytes} (hx : (Wait.offer data true).Offers x)
    (hy : (Wait.offer data true).Offers y) : (Wait.offer data true).Offers (x ++ y) := by
  generalize hWhy : Wait.offer data true = why at hx
  induction hx with
  | once =>
    subst hWhy
    exact .again hy
  | again _ ih =>
    cases hWhy
    rw [List.append_assoc]
    exact .again (ih rfl)

namespace Run

variable {σ τ α β : Type}

/-- The run can write `data`, if it is resumed in one way or another when it waits. -/
def Writes : Run σ α → (data : Bytes) → Prop
  | .done _ _, data => data = []
  | .wait why _ resume, data => ∃ first, why.Offers first ∧
    (data = first ∨ ∃ signal state more, (resume signal state).Writes more ∧ data = first ++ more)

theorem Writes.bind_inv {r : Run σ α} {f : α → σ → Run σ β} {data : Bytes} (h : (r.bind f).Writes data) :
    r.Writes data ∨ ∃ first more a state, data = first ++ more ∧ r.Writes first ∧ (f a state).Writes more := by
  induction r generalizing data with
  | done a state => exact .inr ⟨[], data, a, state, rfl, rfl, h⟩
  | wait why state resume ih =>
    obtain ⟨first, hFirst, rfl | ⟨signal, state', more, hMore, rfl⟩⟩ := h
    · exact .inl ⟨data, hFirst, .inl rfl⟩
    · rcases ih signal state' hMore with hLeft | ⟨middle, last, a, state'', rfl, hMiddle, hLast⟩
      · exact .inl ⟨first, hFirst, .inr ⟨signal, state', more, hLeft, rfl⟩⟩
      · refine .inr ⟨first ++ middle, last, a, state'', by simp, ?_, hLast⟩
        exact ⟨first, hFirst, .inr ⟨signal, state', middle, hMiddle, rfl⟩⟩

theorem Writes.of_bind_done {r : Run σ α} {f : α → σ → Run σ β} {data : Bytes} (h : (r.bind f).Writes data)
    (hf : ∀ a state more, (f a state).Writes more → more = []) : r.Writes data := by
  obtain hLeft | ⟨first, more, a, state, rfl, hFirst, hMore⟩ := h.bind_inv
  · exact hLeft
  · rw [hf a state more hMore, List.append_nil]
    exact hFirst

theorem Writes.of_within {get : σ → τ} {put : τ → Signal → σ → σ} {r : Run σ α} {data : Bytes}
    (h : (r.within get put).Writes data) : r.Writes data := by
  induction r generalizing data with
  | done a state => exact h
  | wait why state resume ih =>
    obtain ⟨first, hFirst, rfl | ⟨signal, part, more, hMore, rfl⟩⟩ := h
    · exact ⟨data, hFirst, .inl rfl⟩
    · exact ⟨first, hFirst, .inr ⟨signal, put part signal state, more, ih signal _ hMore, rfl⟩⟩

theorem Mirrors.quiet {V : View σ} {hears : Wait → Signal → Prop} {o sent : Bytes} {r r' : Run σ α}
    (h : r.Mirrors V hears o sent r') (hHears : ∀ why signal, hears why signal) (hFits : ∀ state, V.Fits state)
    {data : Bytes} (hWrites : r.Writes data) : data = [] := by
  induction h generalizing data with
  | done _ _ => exact hWrites
  | @wait o sent why why' state resume resume' _ _ hOffer _ _ ih =>
    obtain ⟨first, hFirst, rfl | ⟨signal, state', more, hMore, rfl⟩⟩ := hWrites
    · exact hFirst.eq_nil hOffer
    · rw [hFirst.eq_nil hOffer, ih signal (hHears why' signal) state' o (hFits state') hMore]
      rfl
  | offer _ _ ih => exact ih hWrites

end Run

namespace Invoker

variable {v : Invoker} {nested : Nested} {phase : Phase} {text data : Bytes} {ss : List Statement}

theorem runAlternatives_quiet (hNested : nested.Blind) {ps : List Pipeline}
    (h : (v.runAlternatives nested .capture ps phase).Writes data) : data = [] :=
  (runAlternatives_mirrors hNested ps phase []).quiet (fun _ _ => trivial) (fun _ => trivial) h

theorem runStatements_writes (hNested : nested.Blind)
    (h : (v.runStatements nested .stream text ss phase).Writes data) :
    data = [] ∨ ∃ last phase', ss.getLast? = some last ∧
      (v.runAlternatives nested .consumer last.alternatives phase').Writes data := by
  induction ss generalizing text phase data with
  | nil => exact .inl h
  | cons s rest ih =>
    cases rest with
    | nil =>
      refine .inr ⟨s, phase, rfl, h.of_bind_done fun result phase' more hMore => ?_⟩
      cases result <;> exact hMore
    | cons s' rest =>
      obtain hFirst | ⟨first, more, result, phase', rfl, hFirst, hMore⟩ := h.bind_inv
      · exact .inl (runAlternatives_quiet hNested hFirst)
      · rw [runAlternatives_quiet hNested hFirst, List.nil_append]
        cases result with
        | error fault => exact .inl hMore
        | ok text =>
          rw [List.getLast?_cons_cons]
          exact ih hMore

end Invoker

/-- The last statement of `script` can write `data` to the consumer of its output. -/
def Script.LastWrites (programs : Host.Programs) (context : Context) (script : Script) (data : Bytes) : Prop :=
  ∃ last overlay phase, script.statements.getLast? = some last ∧
    ((Invoker.mk programs context overlay).runAlternatives (nestedRun programs maxDepth) .consumer last.alternatives
      phase).Writes data

theorem Script.lastWrites_of_writes {programs : Host.Programs} {context : Context} {script : Script} {w : World}
    {data : Bytes} (h : (script.execute programs context .stream w).Writes data) :
    data = [] ∨ script.LastWrites programs context data := by
  have hStatements := (h.of_bind_done fun _ _ _ hMore => hMore).of_within.of_bind_done fun _ _ _ hMore => hMore
  obtain hNone | ⟨last, phase, hLast, hWrites⟩ :=
    Invoker.runStatements_writes (nestedRun_blind programs maxDepth) hStatements
  · exact .inl hNone
  · exact .inr ⟨last, _, phase, hLast, hWrites⟩

namespace Progress

/-- Whatever the script writes after `before`, `W` holds of all that it has written then. -/
def Extends (W : Bytes → Prop) (before : Bytes) : Progress → Prop
  | .idle next | .due next => ∀ w more, (next w).Writes more → W (before ++ more)
  | .waiting why resume _ => ∃ earlier first, before = earlier ++ first ∧ why.Offers first ∧
    ∀ (state : World) (data : Bytes), (Run.wait why state resume).Writes data → W (earlier ++ data)
  | .ended _ | .noted _ | .sealed _ | .done _ => True

variable {W : Bytes → Prop} {before : Bytes}

theorem Extends.begin {p : Progress} (h : p.Extends W before) : p.begin.Extends W before := by
  cases p <;> exact h

theorem Extends.resume {why : Wait} {resume : Signal → World → Background} {taken : Nat}
    (h : (waiting why resume taken).Extends W before) (signal : Signal) : (due (resume signal)).Extends W before := by
  obtain ⟨earlier, first, rfl, hFirst, hW⟩ := h
  intro w more hMore
  rw [List.append_assoc]
  exact hW w (first ++ more) ⟨first, hFirst, .inr ⟨signal, w, more, hMore, rfl⟩⟩

theorem Extends.offering {data : Bytes} {endless : Bool} {resume : Signal → World → Background} {taken : Nat}
    (h : (waiting (.offer data endless) resume taken).Extends W before) (taken' : Nat) :
    (offering data endless resume taken').Extends W before := by
  unfold Progress.offering
  split
  · exact h
  · cases endless with
    | false => exact h.resume .ready
    | true =>
      obtain ⟨earlier, first, rfl, hFirst, hW⟩ := h
      rintro w more ⟨next, hNext, hMore⟩
      rw [List.append_assoc]
      refine hW w (first ++ more) ⟨first ++ next, hFirst.append hNext, ?_⟩
      rcases hMore with rfl | ⟨signal, state, last, hLast, rfl⟩
      · exact .inl rfl
      · exact .inr ⟨signal, state, last, hLast, by simp⟩

theorem Moves.extends {canceled gone : Bool} {x y : Progress × World} {written : Bytes}
    (h : Moves canceled gone x written y) (hBefore : x.1.Extends W before) (hWritten : before = [] ∨ W before) :
    y.1.Extends W (before ++ written) ∧ (before ++ written = [] ∨ W (before ++ written)) := by
  cases h with
  | @go next w =>
    dsimp only at hBefore ⊢
    have hNext := hBefore w
    cases hRun : next w with
    | done result state =>
      rw [hRun] at hNext
      exact ⟨trivial, .inr (hNext [] rfl)⟩
    | wait why state resume =>
      rw [hRun] at hNext
      refine ⟨⟨before, why.offered, rfl, .once, fun state data hData => hNext data hData⟩, .inr ?_⟩
      exact hNext why.offered ⟨why.offered, .once, .inl rfl⟩
  | ready _ _ | stop _ =>
    rw [List.append_nil]
    exact ⟨hBefore.resume _, hWritten⟩

end Progress

namespace Reader

variable {start : World → Background} {w : World} {events : List Event} {s u v : Use}

theorem writes (hNew : s.IsNew start w) (h : History Step s events u) :
    written events = [] ∨ ∃ w', (start w').Writes (written events) := by
  refine (h.invariant (P := fun events u => u.progress.Extends (fun data => ∃ w', (start w').Writes data)
    (written events) ∧ (written events = [] ∨ ∃ w', (start w').Writes (written events))) ?_ ?_).2
  · rcases hNew with rfl | rfl <;> exact ⟨fun w' more hMore => ⟨w', hMore⟩, .inl rfl⟩
  · rintro events u v e ⟨hProgress, hWritten⟩ hStep
    rw [written_concat]
    cases hStep with
    | run hMoves => exact hMoves.extends hProgress hWritten
    | enter hCall =>
      rw [show (Event.enters _ _ u.entry).written = [] from rfl, List.append_nil]
      refine ⟨?_, hWritten⟩
      unfold Use.entered
      split
      · exact hProgress
      · exact hProgress.begin
    | take hCall hEntry hOffer _ _ _ _ =>
      rw [show (Event.gives _ _ _).written = [] from rfl, List.append_nil]
      rw [hOffer] at hProgress
      exact ⟨hProgress.offering _, hWritten⟩
    | finish _ | conclude _ | leave _ => exact ⟨trivial, by simpa [Event.written] using hWritten⟩
    | _ => exact ⟨by simpa [Event.written] using hProgress, by simpa [Event.written] using hWritten⟩

/-- What is true when a read has come to the end after the events `a` and `b` has happened since: the script has
finished with `result`. -/
structure ReadToEnd (s : Use) (a b : List Event) (result : Except Fault String) : Prop where
  finished : .finishes result ∈ a
  /-- All that the script has written or will write has been given. -/
  all : given a = written (a ++ b)
  /-- The first call that closes the reader reports how the script ended, and so does streaming if the consumer has
  nothing to say. -/
  reports : ∀ c id found d fault, b = c ++ .shuts id found :: d → (∀ e ∈ c, e.isShut = false) →
    .closes id fault ∈ d → fault = faultOf result ∧ Reader.outcome none fault = faultOf result
  /-- Such a call needs only the script to come to its end. -/
  closes : (∀ e ∈ b, e.isShut = false) → ∀ id, doneBy Event.call? id (a ++ b) = [] →
    ∃ more v, History Step s (a ++ b ++ more) v ∧ .closes id (faultOf result) ∈ more ∧
      ∀ e ∈ more, e.call? = some id ∨ e.isOfScript = true

theorem readToEnd (hNew : s.IsNew start w) {a b : List Event} (h : History Step s (a ++ b) u)
    {result : Except Fault String} (hFinishes : .finishes result ∈ a) (hAll : given a = written (a ++ b))
    (hOpen : ∀ e ∈ a, e.isShut = false) : ReadToEnd s a b result := by
  refine ⟨hFinishes, hAll, ?_, ?_⟩
  · rintro c id found d fault rfl hFirst hCloses
    have hShut : a ++ (c ++ .shuts id found :: d) = (a ++ c) ++ .shuts id found :: d := by simp
    have hNone : ∀ e ∈ a ++ c, e.isShut = false := by
      intro e he
      rcases List.mem_append.mp he with he | he
      · exact hOpen e he
      · exact hFirst e he
    have hMem : .closes id fault ∈ a ++ (c ++ .shuts id found :: d) := by simp [hCloses]
    have hFault := closes_of_finishes hNew h hShut hNone (List.mem_append_left c hFinishes) hMem
    exact ⟨hFault, by simpa [Reader.outcome] using hFault⟩
  · intro hNone id hCall
    refine can_close hNew h (List.mem_append_left b hFinishes) ?_ hCall
    intro e he
    rcases List.mem_append.mp he with he | he
    · exact hOpen e he
    · exact hNone e he

/-- What reads of a script give is the beginning of what its last statement writes. As long as nobody disturbs the
script, it is what a single read of as many bytes gives, and what is attempted at the last statement gives as output.
A read that comes to the end, when nobody has begun to close the reader and so to refuse or to interrupt reads, does
so when all of it has been given, with the fault of the script; the first call that closes the reader after that
reports the same. -/
theorem reads_faithful {programs : Host.Programs} {context : Context} {script : Script}
    (hNew : s.IsNew (script.execute programs context .stream) w) (h : History Step s events u) :
    given events <+: written events ∧
    (written events = [] ∨ script.LastWrites programs context (written events)) ∧
    ((∀ e ∈ events, e.disturbs = false) →
      given events = ((Reader.idle (script.execute programs context .stream)).read (some (given events).length) w).1.1 ∧
      ∀ tries phase, script.attempt programs context .stream w = some (tries, phase) →
        given events <+: Attempt.outputs (Statement.lastTries script.statements tries)) ∧
    ∀ a id data ending b, events = a ++ .gives id data ending :: b → ending ≠ .full → (∀ e ∈ a, e.isShut = false) →
      ∃ result, ending = .ofFault (faultOf result) ∧ ReadToEnd s a (.gives id data ending :: b) result ∧
        ((∀ e ∈ a, e.disturbs = false) → ∃ tries phase,
          script.attempt programs context .stream w = some (tries, phase) ∧
          given a = Attempt.outputs (Statement.lastTries script.statements tries) ∧
          faultOf result = Attempt.lastFault tries.flatten) := by
  refine ⟨(delivered hNew h).beginning, ?_, ?_, ?_⟩
  · obtain hNone | ⟨w', hWrites⟩ := writes hNew h
    · exact .inl hNone
    · exact Script.lastWrites_of_writes hWrites
  · intro hCalm
    refine ⟨given_eq_read hNew h hCalm, fun tries phase hAttempt => ?_⟩
    have hDrain := (undisturbed hNew h hCalm).drain
    rw [Script.execute_drain programs context script w (by simp), hAttempt, Option.map_some] at hDrain
    obtain ⟨⟨more, x⟩, -, hEq⟩ := Option.map_eq_some_iff.mp hDrain.symm
    exact ⟨more, (Prod.mk.inj hEq).1⟩
  · rintro a id data ending b rfl hEnd hOpen
    obtain ⟨result, hFinishes, rfl, -, hAll⟩ := ended_read hNew h rfl hEnd hOpen
    refine ⟨result, rfl, readToEnd hNew h hFinishes hAll hOpen, fun hCalm => ?_⟩
    obtain ⟨x, -, hPast, -⟩ := h.split rfl
    have hDrain := drain_of_finishes hNew hPast hCalm hFinishes
    rw [Script.execute_drain programs context script w (by simp)] at hDrain
    obtain ⟨⟨tries, phase⟩, hAttempt, hEq⟩ := Option.map_eq_some_iff.mp hDrain
    obtain ⟨hGiven, hEq⟩ := Prod.mk.inj hEq
    obtain ⟨rfl, -⟩ := Prod.mk.inj hEq
    exact ⟨tries, phase, hAttempt, hGiven.symm, faultOf_answer _ _ _⟩

theorem reads_faithful_complaining :
    ∃ events u fault, History Step (.fresh (complaining.execute [] ⟨[], some 0, false⟩ .stream) (.bench [])) events u ∧
      given events = utf8 "b\n" ∧
      (∃ a id b, events = a ++ .gives id [] (.fault fault) :: b ∧ given a = written events) ∧
      ∃ more v id, History Step (.fresh (complaining.execute [] ⟨[], some 0, false⟩ .stream) (.bench []))
          (events ++ more) v ∧ .closes id (some fault) ∈ more := by
  obtain ⟨events, u, result, fault, w', h, ⟨-, -, hOpen, -⟩, hFault, hGiven, id, hGives⟩ := complaining_history
  have hNone : ∀ e ∈ events, e.isShut = false := by
    intro e he
    cases e with
    | shuts j found =>
      have hClosed := (known (.inl rfl) h).closed.mpr ⟨j, found, he⟩
      rw [hOpen.closed] at hClosed
      cases hClosed
    | _ => rfl
  obtain ⟨a, b, rfl⟩ := List.append_of_mem hGives
  obtain ⟨-, -, -, hEnds⟩ := reads_faithful (.inl rfl) h
  obtain ⟨result', hSame, hEnd, -⟩ := hEnds a id [] (.fault fault) b rfl (by simp)
    fun e he => hNone e (List.mem_append_left _ he)
  have hFault' : faultOf result' = some fault := by
    cases hResult : faultOf result' with
    | none =>
      rw [hResult] at hSame
      cases hSame
    | some cause =>
      rw [hResult] at hSame
      cases hSame
      rfl
  obtain ⟨j, hCall⟩ := exists_unmade Event.call? (a ++ .gives id [] (.fault fault) :: b)
  obtain ⟨more, v, hMore, hCloses, -⟩ := hEnd.closes (fun e he => hNone e (List.mem_append_right a he)) j hCall
  rw [hFault'] at hCloses
  exact ⟨_, u, fault, h, hGiven, ⟨a, id, b, rfl, hEnd.all⟩, more, v, j, hMore, hCloses⟩

end Reader

end Pipework
