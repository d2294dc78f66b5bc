import Pipework.Proofs.Files.Address
import Pipework.Proofs.Schedule.Passage
import Pipework.Proofs.Schedule.Steady
import Pipework.Proofs.Schedule.Trials
import Pipework.Proofs.Stage.Lone

/-!
# The log of a failure

A stage keeps a record of what it writes to the error output of the host. Redirections may lead either output
there, or away from there, and more than once: whatever they make of the streams, a write that reaches the host is
recorded, and nothing else is. When a stage that is alone in its pipeline fails, the log of the failure is what the
host has received.
-/

namespace Pipework

theorem World.errors_serve : World.Aloof World.errors := by
  intro w storage request
  obtain ⟨memory, tree, hServe⟩ := w.serve_eq storage request
  rw [hServe]

theorem Line.errors_used (l : Line) (p : Prop) [Decidable p] (n : Nat) :
    (if p then l.dropInput n else l).world.errors = l.world.errors := by
  split <;> rfl

theorem Failure.log_ofFault (command : String) (log : Bytes) {fault : Fault} (h : fault.failure? = none) :
    (ofFault command log fault).log = log := by
  rw [ofFault, h]
  cases fault.exit? <;> rfl

/-- The host had received `e` when the stage was launched, and has since received what the stage has recorded, as
long as nobody else writes there while the stage waits. -/
def Reply.Echoes (e : Bytes) {α : Type} : Reply α → Prop
  | .done (desk, _) line => line.world.errors = e ++ desk.log
  | .wait _ line resume =>
    ∀ signal line', line'.world.errors = line.world.errors → Reply.Echoes e (resume signal line')

namespace Reply

variable {e : Bytes} {α β : Type}

theorem Echoes.bind {r : Reply α} {f : Desk × Option α → Line → Reply β} (h : r.Echoes e)
    (hf : ∀ desk answer line, line.world.errors = e ++ desk.log → (f (desk, answer) line).Echoes e) :
    Reply.Echoes e (Run.bind r f) := by
  induction r with
  | done result line => exact hf result.1 result.2 line h
  | wait why line resume ih => exact fun signal line' hSame => ih signal line' (h signal line' hSame)

theorem Echoes.map {r : Reply α} (f : α → β) (h : r.Echoes e) : (r.map f).Echoes e :=
  h.bind fun _ _ _ hErrors => hErrors

theorem echoes_wait {why : Wait} {desk : Desk} {line : Line} {resume : Signal → Line → Reply α}
    (h : line.world.errors = e ++ desk.log)
    (hResume : ∀ signal line, ∃ answer line', resume signal line = .done (desk, answer) line' ∧
      line'.world.errors = line.world.errors) : Reply.Echoes e (.wait why line resume) := by
  intro signal line' hSame
  obtain ⟨answer, line'', hDone, hKept⟩ := hResume signal line'
  rw [hDone]
  exact (hKept.trans hSame).trans h

end Reply

namespace Stage

variable (st : Stage) {e : Bytes} {desk : Desk} {line : Line} (h : line.world.errors = e ++ desk.log)

include h

theorem deliver_echoes (sink : Sink) (data : Bytes) : (st.deliver sink data desk line).Echoes e := by
  unfold deliver
  split
  · exact h
  · have hAppended : line.world.errors ++ data = e ++ (desk.log ++ data) := by rw [h, List.append_assoc]
    exact hAppended
  · split
    · exact h
    · exact (World.errors_serve _ _ _).trans h
  · split
    · split <;> exact h
    · split
      · exact h
      · exact h
      · split
        · exact h
        · split
          · exact h
          · exact Reply.echoes_wait h fun _ line => ⟨_, line, rfl, rfl⟩

theorem flood_echoes (data : Bytes) : (st.flood data desk line).Echoes e := by
  unfold flood
  split
  · exact Reply.echoes_wait h fun _ line => ⟨_, line, rfl, rfl⟩
  · split
    · have hSame : (line.setPipe st.index { line.pipe st.index with cycle := data }).world.errors = e ++ desk.log := h
      exact Reply.echoes_wait hSame fun _ line => ⟨_, line, rfl, rfl⟩
    · split
      · split
        · exact h
        · exact Reply.echoes_wait h fun _ line => ⟨_, line, rfl, rfl⟩
      · exact Reply.echoes_wait h fun _ line => ⟨_, line, rfl, rfl⟩

theorem read_echoes (amount : Amount) : (st.read amount desk line).Echoes e := by
  unfold read
  split
  · exact h
  · exact h
  · dsimp only
    split
    · exact h
    · exact Reply.echoes_wait h fun _ line => ⟨_, _, rfl, rfl⟩

theorem pour_echoes (data : Bytes) : (st.pour data desk line).Echoes e := by
  unfold pour
  split
  · exact h
  · exact st.deliver_echoes h st.out data

theorem scan_echoes : (st.scan desk line).Echoes e := by
  unfold scan
  split
  · exact h
  · exact st.read_echoes h .all

theorem relay_echoes (filter : Filter) : (st.relay filter desk line).Echoes e := by
  unfold relay
  dsimp only
  split
  · refine (st.pour_echoes h _).bind ?_
    intro desk₁ delivery line₁ h₁
    dsimp only
    split
    · exact (st.flood_echoes h₁ _).map _
    · exact h₁
  · refine (st.scan_echoes h).bind ?_
    intro desk₁ answer line₁ h₁
    cases answer with
    | none => exact h₁
    | some input =>
      refine (st.pour_echoes h₁ _).bind ?_
      intro desk₂ delivery line₂ h₂
      exact (line₂.errors_used _ _).trans h₂

theorem perform_echoes (nested : Nested) {action : Action} (hInvokes : action.invokes = false) :
    (st.perform nested desk line action).Echoes e := by
  cases action with
  | write channel data =>
    cases channel with
    | out => exact (st.deliver_echoes h st.out data).map _
    | err => exact (st.deliver_echoes h st.err data).map _
  | flood data => exact st.flood_echoes h data
  | read amount => exact st.read_echoes h amount
  | relay filter => exact st.relay_echoes h filter
  | files storage request => exact (World.errors_serve _ _ _).trans h
  | pause =>
    unfold perform
    split
    · exact h
    · exact Reply.echoes_wait h fun _ line => ⟨_, line, rfl, rfl⟩
  | invoke file number script => cases hInvokes
  | _ => exact h

omit h in
theorem errors_close (fault : Option Fault) : (st.close fault desk line).world.errors = line.world.errors := by
  unfold close
  rw [World.releaseAll_eq]
  exact World.errors_serve.closeAll _ _

end Stage

/-- The host has received `e` and then the log of the stage, `errors` in all. -/
def Work.Echoes {S : Type} (e errors : Bytes) : Work S → Prop
  | .ready _ desk => errors = e ++ desk.log
  | .waiting resume _ => ∀ signal line, line.world.errors = errors → Reply.Echoes e (resume signal line)
  | .calling _ _ _ => False

/-- A stage that fails by itself has a log of what the host has received since `e`. -/
def Turn.Echoes {S : Type} (e : Bytes) : Turn S × Line → Prop
  | (.on work, line) => work.Echoes e line.world.errors
  | (.ended result, line) => ∀ failure, result = some failure → line.world.errors = e ++ failure.log

section Turns

variable {S : Type} {st : Stage} {e : Bytes}

theorem Stage.closed_echoes {fault : Option Fault} {desk : Desk} {line : Line}
    (h : line.world.errors = e ++ desk.log) (hForeign : ∀ f, fault = some f → f.failure? = none) :
    Turn.Echoes (S := S) e (st.closed fault desk line) := by
  intro failure hFailure
  obtain ⟨f, hFault, rfl⟩ := Option.map_eq_some_iff.mp hFailure
  rw [st.errors_close, h, Failure.log_ofFault st.shown desk.log (hForeign f hFault)]

theorem Stage.killed_echoes {desk : Desk} {line : Line} (h : line.world.errors = e ++ desk.log) :
    Turn.Echoes (S := S) e (st.killed desk line) := by
  refine closed_echoes h ?_
  rintro f ⟨⟩
  rfl

theorem Stage.after_echoes {action : Action} {next : action.Answer → Program (Except Fault Unit)}
    {reply : Reply action.Answer} (h : reply.Echoes e) : Turn.Echoes (S := S) e (st.after next reply) := by
  cases reply with
  | done result line =>
    obtain ⟨desk, answer⟩ := result
    cases answer with
    | some answer => exact h
    | none => exact killed_echoes h
  | wait why line resume => exact h

theorem Acts.echoes {C : Calls} {work : Work C.State} {line : Line} {x : Turn C.State × Line}
    (h : Acts C False st (.on work, line) x) (hWork : work.Echoes e line.world.errors) (hForeign : work.EndsForeign) :
    Turn.Echoes e x := by
  cases h with
  | act nested hInvokes => exact Stage.after_echoes (st.perform_echoes hWork nested hInvokes)
  | call hCall => exact hCall.elim
  | inner hStep => exact hWork.elim
  | answer hResult => exact hWork.elim
  | resume signal hStop => exact Stage.after_echoes (hWork signal line rfl)
  | kill hProcess hCanceled => exact Stage.killed_echoes hWork
  | @finish result desk _ =>
    refine Stage.closed_echoes hWork ?_
    intro f hFault
    cases result with
    | ok _ => cases hFault
    | error f =>
      cases hFault
      exact hForeign _ desk rfl f rfl

end Turns

namespace Crew

/-- How far a pipeline of one command has come, of which the host had received `e` before. -/
inductive Solo {S : Type} (e : Bytes) : Crew S → Prop
  | idle {line : Line} {c : Command} (hBoard : ∃ pipefail, line.board = .opened pipefail)
      (hErrors : line.world.errors = e) : Solo e ⟨line, [c], 0, [], none⟩
  | refused {line : Line} {c : Command} {fault : Fault} (hErrors : line.world.errors = e)
      (hSilent : ∀ failure, fault.failure? = some failure → failure.log = []) : Solo e ⟨line, [c], 0, [], some fault⟩
  | busy {line : Line} {w : Worker S} (hBoard : ∃ pipefail, line.board = .opened pipefail)
      (hLast : w.stage.isLast = true) (hSteady : w.work.Steady)
      (hCandid : w.stage.isProcess = true → w.work.Candid) (hWork : w.work.Echoes e line.world.errors) :
    Solo e ⟨line, [], 1, [w], none⟩
  | ended {line : Line}
      (hLog : ∀ failure, line.board.verdict = some failure → line.world.errors = e ++ failure.log) :
    Solo e ⟨line, [], 1, [], none⟩

variable {v : Invoker} {output : Output} {C : Calls} {e : Bytes} {crew crew' : Crew C.State}

theorem silent_of_launch {index : Nat} {isLast : Bool} {c : Command} {line line' : Line} {fault : Fault}
    (h : v.launch output index isLast c line = (.error fault, line')) :
    ∀ failure, fault.failure? = some failure → failure.log = [] := by
  intro failure hFailure
  rcases Invoker.launch_error h with ⟨_, _, _, _, _, _, -, -, -, hServe⟩ | ⟨cause, -, rfl⟩
  · rw [World.foreign_serve _ _ _ fault hServe] at hFailure
    cases hFailure
  · rw [Failure.failure?_toFault] at hFailure
    cases hFailure
    rfl

theorem Solo.within (h : crew.Solo e) {world : World} (hSame : world.errors = crew.line.world.errors) :
    (crew.within world).Solo e := by
  cases h with
  | idle hBoard hErrors => exact .idle hBoard (hSame.trans hErrors)
  | refused hErrors hSilent => exact .refused (hSame.trans hErrors) hSilent
  | @busy line w hBoard hLast hSteady hCandid hWork =>
    have hErrors : world.errors = line.world.errors := hSame
    exact .busy hBoard hLast hSteady hCandid (hErrors ▸ hWork)
  | ended hLog => exact .ended fun failure hFailure => hSame.trans (hLog failure hFailure)

theorem Solo.step (h : crew.Solo e) (hPrograms : Host.Programs.Candid v.programs) (hForeign : crew.BuiltinsForeign)
    {event : Event} (hStep : Step v output C False crew event crew') : crew'.Solo e := by
  have hLaunched := World.errors_serve.launch (fun _ _ => rfl) v output
  cases h with
  | @idle line c hBoard hErrors =>
    cases hStep with
    | @launch c' rest start line' hPending hRefusal hOrder hOk =>
      obtain ⟨rfl, rfl⟩ : c = c' ∧ [] = rest := List.cons.inj hPending
      have hFirst := congrArg Prod.fst hOk
      have hStatus := v.status_launch output 0 true c line
      have hSame := hLaunched 0 true c line
      obtain ⟨-, hIsLast, -⟩ := v.stage_launch output 0 true c line hFirst
      have hLine : (v.launch output 0 true c line).2 = line' := congrArg Prod.snd hOk
      rw [hLine] at hStatus hSame
      have hBoard' : line'.board = line.board := congrArg Line.Status.board hStatus
      refine .busy (hBoard'.symm ▸ hBoard) hIsLast trivial (launch_candid hPrograms hOk) ?_
      have hLog := v.log_launch output 0 true c line hFirst
      have hAll : line'.world.errors = e ++ start.desk.log := by rw [hSame, hErrors, hLog, List.append_nil]
      exact hAll
    | @refuse c' rest fault line' hPending hRefusal hOrder hError =>
      obtain ⟨rfl, rfl⟩ : c = c' ∧ [] = rest := List.cons.inj hPending
      have hSame := hLaunched 0 true c line
      have hLine : (v.launch output 0 true c line).2 = line' := congrArg Prod.snd hError
      rw [hLine] at hSame
      exact .refused (hSame.trans hErrors) (silent_of_launch hError)
    | act hWorkers hActs => simp at hWorkers
    | finish hWorkers hActs => simp at hWorkers
    | stop => exact .idle hBoard hErrors
  | refused hErrors hSilent =>
    cases hStep with
    | launch hPending hRefusal hOrder hOk => cases hRefusal
    | refuse hPending hRefusal hOrder hError => cases hRefusal
    | act hWorkers hActs => simp at hWorkers
    | finish hWorkers hActs => simp at hWorkers
    | stop => exact .refused hErrors hSilent
  | @busy line w hBoard hLast hSteady hCandid hWork =>
    have hEnds : w.work.EndsForeign := by
      cases hProcess : w.stage.isProcess with
      | true => exact (hCandid hProcess).endsForeign
      | false => exact hForeign w (List.mem_singleton.mpr rfl) hProcess
    -- The stage is the only one of the pipeline.
    have hAlone : ∀ {before after : List (Worker C.State)} {w' : Worker C.State}, [w] = before ++ w' :: after →
        before = [] ∧ w = w' ∧ after = [] := by
      intro before after w' hWorkers
      cases before with
      | nil => exact ⟨rfl, (List.cons.inj hWorkers).1, (List.cons.inj hWorkers).2.symm⟩
      | cons first before => simp at hWorkers
    cases hStep with
    | launch hPending hRefusal hOrder hOk => cases hPending
    | refuse hPending hRefusal hOrder hError => cases hPending
    | @act before after w' work line' hWorkers hActs =>
      obtain ⟨rfl, rfl, rfl⟩ := hAlone hWorkers
      have hBoard' : line'.board = line.board := congrArg Line.Status.board (hActs.records hSteady)
      exact .busy (hBoard'.symm ▸ hBoard) hLast (hActs.steady hSteady) (fun hProcess => hActs.candid (hCandid hProcess))
        (hActs.echoes hWork hEnds)
    | @finish before after w' result line' hWorkers hActs =>
      obtain ⟨rfl, rfl, rfl⟩ := hAlone hWorkers
      obtain ⟨pipefail, hOpened⟩ := hBoard
      have hRecords : line'.board = line.board.complete w.stage.isLast result :=
        congrArg Line.Status.board (hActs.records hSteady)
      refine .ended ?_
      intro failure hFailure
      rw [hRecords, hOpened, hLast, Board.verdict_lone] at hFailure
      exact hActs.echoes hWork hEnds failure hFailure
    | stop => exact .busy hBoard hLast hSteady hCandid hWork
  | ended hLog =>
    cases hStep with
    | launch hPending hRefusal hOrder hOk => cases hPending
    | refuse hPending hRefusal hOrder hError => cases hPending
    | act hWorkers hActs => simp at hWorkers
    | finish hWorkers hActs => simp at hWorkers
    | stop => exact .ended hLog

theorem Passage.solo {apart : World → World → Prop} {first last : Crew C.State} {chronicle : Chronicle C.State}
    (h : Passage v output C False apart first chronicle last) (hFirst : first.Solo e)
    (hPrograms : Host.Programs.Candid v.programs) (hApart : ∀ w w', apart w w' → w'.errors = w.errors)
    (hForeign : ∀ entry ∈ chronicle, entry.1.BuiltinsForeign) : last.Solo e := by
  induction h with
  | start => exact hFirst
  | step h hStep ih =>
    obtain ⟨hBefore, hNow⟩ := List.forall_mem_append.mp hForeign
    exact (ih hBefore).step hPrograms (hNow _ (List.mem_singleton.mpr rfl)) hStep
  | outside h hAllowed ih => exact (ih hForeign).within (hApart _ _ hAllowed)

end Crew

namespace Crew

variable {v : Invoker} {output : Output} {C : Calls} {apart : World → World → Prop} {crew : Crew C.State}
  {chronicle : Chronicle C.State}

/-- A pipeline of one command that runs no scripts, and ends in a fault: what the host's error output has received
in the meantime is the log of the failure, if the fault tells of one. It does so whenever the command has run. -/
theorem errors_eq_log {p : Pipeline} {c : Command} {phase : Invoker.Phase} {fault : Fault} (hOne : p.commands = [c])
    (hPrograms : Host.Programs.Candid v.programs) (hApart : ∀ w w', apart w w' → w'.errors = w.errors)
    (hPassage : Passage v output C False apart
      (start p.commands (v.openLine p { phase with world := v.traced p phase.world })) chronicle crew)
    (hForeign : ∀ entry ∈ chronicle, entry.1.BuiltinsForeign) (hVerdict : crew.verdict = some fault) :
    (crew.refusal = none → ∃ failure, fault.failure? = some failure) ∧
      ∀ failure, fault.failure? = some failure → crew.line.world.errors = phase.world.errors ++ failure.log := by
  have hStart : (start p.commands (v.openLine p { phase with world := v.traced p phase.world }) : Crew C.State).Solo
      phase.world.errors := by
    obtain ⟨trace, hTraced⟩ := v.traced_eq p phase.world
    rw [hOne, hTraced]
    exact .idle ⟨_, rfl⟩ rfl
  have hSolo := hPassage.solo hStart hPrograms hApart hForeign
  clear hPassage
  unfold verdict at hVerdict
  cases hSolo with
  | idle hBoard hErrors =>
    obtain ⟨pipefail, hOpened⟩ := hBoard
    rw [hOpened] at hVerdict
    cases pipefail <;> cases hVerdict
  | busy hBoard hLast hSteady hCandid hWork =>
    obtain ⟨pipefail, hOpened⟩ := hBoard
    rw [hOpened] at hVerdict
    cases pipefail <;> cases hVerdict
  | refused hErrors hSilent =>
    cases hVerdict
    refine ⟨by simp, ?_⟩
    intro failure hFailure
    rw [hSilent failure hFailure, List.append_nil]
    exact hErrors
  | ended hLog =>
    rw [Option.none_or] at hVerdict
    obtain ⟨failure, hFailed, rfl⟩ := Option.map_eq_some_iff.mp hVerdict
    refine ⟨fun _ => ⟨failure, failure.failure?_toFault⟩, ?_⟩
    intro other hOther
    obtain rfl : failure = other := Option.some.inj (failure.failure?_toFault.symm.trans hOther)
    exact hLog failure hFailed

/-- A command that writes to both outputs, which lead to the same place, and then fails. -/
def complaining : Pipeline := ⟨[⟨["say", "a", "b", "c"], [], [⟨1, .fd 2, false⟩]⟩], false, "", 1⟩

theorem errors_eq_log_complaining :
    ∃ (chronicle : Chronicle Calls.tooDeep.State) (crew : Crew Calls.tooDeep.State) (failure : Failure),
      Passage .bench .host .tooDeep False (fun _ _ => False)
        (start complaining.commands (Invoker.bench.openLine complaining ⟨.bench [], .opened, false, false⟩))
        chronicle crew ∧
      (∀ entry ∈ chronicle, entry.1.BuiltinsForeign) ∧ crew.verdict = some failure.toFault ∧
      crew.line.world.errors = failure.log ∧ failure.log = utf8 "a\nb\n" := by
  let line : Line := Invoker.bench.openLine complaining ⟨.bench [], .opened, false, false⟩
  let c : Command := ⟨["say", "a", "b", "c"], [], [⟨1, .fd 2, false⟩]⟩
  let w : Wiring := { Wiring.initial .host with out := .errors }
  let stage : Stage :=
    ⟨0, true, false, c.render, .host, none, .errors, .errors, [], .host, 0, Invoker.bench.context⟩
  let desk (log : Bytes) : Desk := ⟨.nothing, [], log⟩
  let now (errors : Bytes) : Line := { line with world := { line.world with errors := errors } }
  let crew (task : Task Unit) (log : Bytes) : Crew Calls.tooDeep.State :=
    ⟨now log, [], 1, [⟨stage, false, .ready task (desk log)⟩], none⟩
  let a : Bytes := Builtin.lines ["a"]
  let b : Bytes := Builtin.lines ["b"]
  let failed : Task Unit := throw (.plain "c")
  let complained : Task Unit := do
    Task.tryWrite .err b
    failed
  let task : Task Unit := do
    Task.tryWrite .out a
    complained
  have hLaunch : Invoker.bench.launch .host 0 true c line = (.ok ⟨false, stage, task, desk []⟩, line) :=
    @Invoker.launch_of_redirectAll .bench .host 0 true c line (.concurrent Builtin.say) w line.world rfl rfl
  have hLaunched : Step .bench .host .tooDeep False (start complaining.commands line) (.launched 0) (crew task []) :=
    @Step.launch .bench .host _ _ (start complaining.commands line) c [] _ line rfl rfl (by simp [start]) hLaunch
  have hOut : Step .bench .host .tooDeep False (crew task []) (.acted 0) (crew complained a) :=
    @Step.act .bench .host _ _ (crew task []) [] [] _ _ _ rfl (.act (nestedRun [] 0) rfl)
  have hErr : Step .bench .host .tooDeep False (crew complained a) (.acted 0) (crew failed (a ++ b)) :=
    @Step.act .bench .host _ _ (crew complained a) [] [] _ _ _ rfl (.act (nestedRun [] 0) rfl)
  let failure : Failure := .ofFault c.render (a ++ b) (.plain "c")
  let after : Line := stage.close (some (.plain "c")) (desk (a ++ b)) (now (a ++ b))
  have hEnded : Step .bench .host .tooDeep False (crew failed (a ++ b)) (.ended 0 (some failure))
      ⟨after, [], 1, [], none⟩ :=
    @Step.finish .bench .host _ _ (crew failed (a ++ b)) [] [] _ _ _ rfl .finish
  have hPassage : Passage .bench .host .tooDeep False (fun _ _ => False) (start complaining.commands line) _ _ :=
    .step (.step (.step (.step .start hLaunched) hOut) hErr) hEnded
  have hAlone : ∀ {task : Task Unit} (log : Bytes), Program.Candid task → (crew task log).BuiltinsForeign := by
    intro task log hCandid
    have hWork : Work.Candid (S := Calls.tooDeep.State) (.ready task (desk log)) := hCandid
    exact List.forall_mem_singleton.mpr fun _ => hWork.endsForeign
  have hFailed : Program.Candid failed := Foreign.error rfl
  have hForeign : ∀ entry ∈ [(start complaining.commands line, Event.launched 0), (crew task [], .acted 0),
      (crew complained a, .acted 0), (crew failed (a ++ b), .ended 0 (some failure))], entry.1.BuiltinsForeign := by
    refine List.forall_mem_cons.mpr ⟨by rintro w ⟨⟩, List.forall_mem_cons.mpr ⟨?_, List.forall_mem_cons.mpr ⟨?_, ?_⟩⟩⟩
    · exact hAlone [] fun _ _ => hFailed
    · exact hAlone a fun _ => hFailed
    · exact List.forall_mem_singleton.mpr (hAlone (a ++ b) hFailed)
  have hPrograms : Host.Programs.Candid Invoker.bench.programs := by
    rintro entry ⟨⟩
  have hVerdict : (⟨after, [], 1, [], none⟩ : Crew Calls.tooDeep.State).verdict = some failure.toFault := rfl
  have hLog := (@errors_eq_log .bench .host .tooDeep (fun _ _ => False) _ _ complaining c
    ⟨.bench [], .opened, false, false⟩ _ rfl hPrograms (by simp) hPassage hForeign hVerdict).2 failure
    failure.failure?_toFault
  exact ⟨_, _, failure, hPassage, hForeign, hVerdict, hLog, by decide +kernel⟩

end Crew

end Pipework
