import Pipework.Host.Tool.Basic
import Pipework.Proofs.Schedule.Invocation
import Pipework.Proofs.Schedule.Status
import Pipework.Proofs.Script.Rendered.Basic
import Pipework.Proofs.Stage.Refusal

/-!
# Why a script failed

A script tries pipelines one after the other, and the fault that it ends with is that of the pipeline it tried
last. Faults come about in four places: a redirection, the start of a process, its end, and the end of a
builtin. Which of them it was is still seen from the fault in the end.
-/

namespace Pipework

/-- However it goes on, the program does not end with a fault that tells of a stage. -/
def Program.Candid : Program (Except Fault Unit) → Prop
  | .done result => Foreign result
  | .act _ next => ∀ answer, (next answer).Candid

def Work.Candid {S : Type} : Work S → Prop
  | .ready program _ => program.Candid
  | .waiting _ next => ∀ answer, (next answer).Candid
  | .calling _ next _ => ∀ result, (next result).Candid

def Turn.Candid {S : Type} : Turn S → Prop
  | .on work => work.Candid
  | .ended _ => True

/-- The work is not about to end with a fault that tells of a stage. -/
def Work.EndsForeign {S : Type} (work : Work S) : Prop :=
  ∀ result desk, work = .ready (.done result) desk → Foreign result

theorem Work.Candid.endsForeign {S : Type} {work : Work S} (h : work.Candid) : work.EndsForeign := by
  rintro result desk rfl
  exact h

/-- A failure is told under the command of the stage, and not as that of one which did not start. -/
def Turn.Tells {S : Type} (st : Stage) : Turn S → Prop
  | .ended (some failure) => failure.command = st.shown ∧ failure.toFault.isNotFound = false
  | _ => True

namespace Stage

variable {S : Type} (st : Stage) {action : Action} {next : action.Answer → Program (Except Fault Unit)}

theorem after_candid (reply : Reply action.Answer) (h : ∀ answer, (next answer).Candid) :
    (st.after (S := S) next reply).1.Candid := by
  cases reply with
  | done result line =>
    obtain ⟨desk, answer⟩ := result
    cases answer with
    | some answer => exact h answer
    | none => trivial
  | wait why line resume => exact h

theorem closed_tells {result : Except Fault Unit} (h : Foreign result) (desk : Desk) (line : Line) :
    (st.closed (S := S) (endFault result) desk line).1.Tells st := by
  cases result with
  | ok => trivial
  | error fault => exact Failure.ofFault_ran st.shown desk.log (h fault rfl)

theorem killed_tells (desk : Desk) (line : Line) : (st.killed (S := S) desk line).1.Tells st := ⟨rfl, rfl⟩

theorem after_tells (reply : Reply action.Answer) : (st.after (S := S) next reply).1.Tells st := by
  cases reply with
  | done result line =>
    obtain ⟨desk, answer⟩ := result
    cases answer with
    | some answer => trivial
    | none => exact st.killed_tells desk line
  | wait why line resume => trivial

end Stage

namespace Acts

variable {C : Calls} {mayCall : Prop} {st : Stage} {work : Work C.State} {line : Line} {x : Turn C.State × Line}

theorem candid (h : Acts C mayCall st (.on work, line) x) (hCandid : work.Candid) : x.1.Candid := by
  cases h with
  | act nested hInvokes => exact st.after_candid _ hCandid
  | call hCall => exact hCandid
  | inner hStep => exact hCandid
  | answer hResult => exact hCandid _
  | resume signal hStop => exact st.after_candid _ hCandid
  | kill hProcess hCanceled => trivial
  | finish => trivial

theorem tells (h : Acts C mayCall st (.on work, line) x) (hForeign : work.EndsForeign) : x.1.Tells st := by
  cases h with
  | act nested hInvokes => exact st.after_tells _
  | call hCall => trivial
  | inner hStep => trivial
  | answer hResult => trivial
  | resume signal hStop => exact st.after_tells _
  | kill hProcess hCanceled => exact st.killed_tells _ line
  | finish => exact st.closed_tells (hForeign _ _ rfl) _ line

end Acts

theorem intercalate_ne_empty {word : String} {words : List String} (hMem : word ∈ words) (h : word ≠ "") :
    " ".intercalate words ≠ "" := by
  cases words with
  | nil => cases hMem
  | cons first words =>
    cases words with
    | nil => simpa using List.mem_singleton.mp hMem ▸ h
    | cons second words => simp [String.intercalate_cons_cons]

theorem Command.located_render_ne_empty {c : Command} (h : c.args ≠ []) (dir : String) :
    Invoker.located dir c.render ≠ "" := by
  have hRender : c.render ≠ "" := by
    obtain ⟨word, hWord⟩ := List.exists_mem_of_ne_nil c.args h
    have hMem : CommandLine.quote word ∈ c.words := by simp [Command.words, List.mem_map_of_mem hWord]
    rw [Command.render_eq h]
    exact intercalate_ne_empty hMem (CommandLine.quote_ne_empty word)
  unfold Invoker.located
  split
  · exact hRender
  · simp

/-- The programs of the host report what they end with by a status, a signal or a fault of their streams. -/
def Host.Programs.Candid (programs : Host.Programs) : Prop :=
  ∀ entry ∈ programs, ∀ spawn, Program.Candid (entry.2 spawn)

namespace Crew

/-- A redirection of the next command fails with what the file system says. -/
def Unopened {S : Type} (v : Invoker) (crew : Crew S) (fault : Fault) : Prop :=
  ∃ c rest, crew.pending = c :: rest ∧ v.Unopened crew.launched c crew.line fault

/-- The next command is no builtin and no process can be started for it, of which `fault` tells. -/
def Unstarted {S : Type} (v : Invoker) (crew : Crew S) (fault : Fault) : Prop :=
  ∃ c rest cause, crew.pending = c :: rest ∧ v.Unstarted crew.launched c crew.line cause ∧
    fault = (Failure.ofStart (Invoker.located (v.directory crew.line.world) c.render) cause).toFault

theorem Unopened.isNotFound {S : Type} {v : Invoker} {crew : Crew S} {fault : Fault} (h : crew.Unopened v fault) :
    fault.isNotFound = false := by
  obtain ⟨c, rest, -, hUnopened⟩ := h
  exact hUnopened.isNotFound

theorem Unstarted.isNotFound {S : Type} {v : Invoker} {crew : Crew S} {fault : Fault}
    (h : crew.Unstarted v fault) : fault.isNotFound = true := by
  obtain ⟨c, rest, cause, -, -, rfl⟩ := h
  exact Failure.isNotFound_ofStart _ cause

/-- What is known of the commands and stages of a pipeline, apart from its builtins. -/
structure Named {S : Type} (crew : Crew S) : Prop where
  pending : ∀ c ∈ crew.pending, c.args ≠ []
  shown : ∀ w ∈ crew.workers, w.stage.shown ≠ ""
  candid : ∀ w ∈ crew.workers, w.stage.isProcess = true → w.work.Candid

/-- No builtin among the stages is about to end with a fault that tells of a stage. -/
def BuiltinsForeign {S : Type} (crew : Crew S) : Prop :=
  ∀ w ∈ crew.workers, w.stage.isProcess = false → w.work.EndsForeign

variable {v : Invoker} {output : Output} {C : Calls} {mayCall : Prop} {crew crew' : Crew C.State} {event : Event}

theorem Named.endsForeign (h : crew.Named) (hBuiltins : crew.BuiltinsForeign) {w : Worker C.State}
    (hw : w ∈ crew.workers) : w.work.EndsForeign := by
  cases hProcess : w.stage.isProcess with
  | true => exact (h.candid w hw hProcess).endsForeign
  | false => exact hBuiltins w hw hProcess

theorem launch_candid (hPrograms : Host.Programs.Candid v.programs) {index : Nat} {isLast : Bool} {c : Command}
    {start : Launch} {line line' : Line} (hLaunch : v.launch output index isLast c line = (.ok start, line'))
    (hProcess : start.stage.isProcess = true) : Program.Candid start.task := by
  obtain ⟨host, dir, env, hStart⟩ := (Invoker.launch_ok hLaunch).2 hProcess
  obtain ⟨entry, hEntry, spawn, -, hTask⟩ := Host.offers_start _ _ _ _ _ _ _ hStart
  have hCandid := hPrograms entry hEntry spawn
  rwa [← hTask] at hCandid

theorem Named.step (hPrograms : Host.Programs.Candid v.programs) (h : crew.Named)
    (hStep : Step v output C mayCall crew event crew') : crew'.Named := by
  cases hStep with
  | @launch c rest start line hPending hRefusal hOrder hLaunch =>
    obtain ⟨hArgs, hRest⟩ := List.forall_mem_cons.mp (hPending ▸ h.pending)
    obtain ⟨hShown, -⟩ := Invoker.launch_ok hLaunch
    refine ⟨hRest, ?_, ?_⟩
    · refine List.forall_mem_append.mpr ⟨h.shown, List.forall_mem_singleton.mpr ?_⟩
      exact hShown ▸ Command.located_render_ne_empty hArgs _
    · refine List.forall_mem_append.mpr ⟨h.candid, List.forall_mem_singleton.mpr ?_⟩
      exact launch_candid hPrograms hLaunch
  | refuse hPending hRefusal hOrder hLaunch => exact ⟨h.pending, h.shown, h.candid⟩
  | @act before after w work line hWorkers hActs =>
    have hMem : w ∈ crew.workers := hWorkers ▸ List.mem_append_right before List.mem_cons_self
    have hShown := h.shown
    have hCandid := h.candid
    have hWork : w.work.Candid → work.Candid := hActs.candid
    refine ⟨h.pending, ?_, ?_⟩ <;> grind
  | @finish before after w result line hWorkers hActs =>
    have hShown := h.shown
    have hCandid := h.candid
    refine ⟨h.pending, ?_, ?_⟩ <;> grind
  | stop => exact ⟨h.pending, h.shown, h.candid⟩

/-- A command is refused for one of two reasons, and then no other one was. -/
theorem Step.refused {i : Nat} {fault : Fault} {canceled : Bool}
    (hStep : Step v output C mayCall crew (.refused i fault canceled) crew') :
    (crew.Unopened v fault ∨ crew.Unstarted v fault) ∧ crew.refusal = none ∧ crew'.refusal = some fault := by
  cases hStep with
  | @refuse c rest _ line hPending hRefusal hOrder hLaunch =>
    refine ⟨?_, hRefusal, rfl⟩
    rcases Invoker.launch_error hLaunch with hUnopened | ⟨cause, hUnstarted, rfl⟩
    · exact .inl ⟨c, rest, hPending, hUnopened⟩
    · exact .inr ⟨c, rest, cause, hPending, hUnstarted, rfl⟩

theorem Step.ended {i : Nat} {failure : Failure} (hStep : Step v output C mayCall crew (.ended i (some failure)) crew')
    (h : crew.Named) (hBuiltins : crew.BuiltinsForeign) :
    failure.command ≠ "" ∧ failure.toFault.isNotFound = false := by
  cases hStep with
  | @finish before after w _ line hWorkers hActs =>
    have hMem : w ∈ crew.workers := hWorkers ▸ List.mem_append_right before List.mem_cons_self
    obtain ⟨hCommand, hNotFound⟩ := hActs.tells (h.endsForeign hBuiltins hMem)
    exact ⟨hCommand ▸ h.shown w hMem, hNotFound⟩

theorem Step.refusal_eq (hStep : Step v output C mayCall crew event crew') (hEvent : event.isRefusal = false) :
    crew'.refusal = crew.refusal := by
  cases hStep with
  | refuse hPending hRefusal hOrder hLaunch => cases hEvent
  | _ => rfl

end Crew

/-- A pipeline that a script tried: what happened, each with the crew as it was before. -/
structure Trial (S : Type) where
  invoker : Invoker
  pipeline : Pipeline
  log : List (Crew S × Event)

namespace Trial

variable {S : Type}

def add (t : Trial S) (crew : Crew S) (event : Event) : Trial S := { t with log := t.log ++ [(crew, event)] }

def Refuses (t : Trial S) (fault : Fault) : Prop := ∃ crew i canceled, (crew, .refused i fault canceled) ∈ t.log

/-- A process could not be started, of which `fault` tells. -/
def Unstarted (t : Trial S) (fault : Fault) : Prop :=
  ∃ crew i canceled, (crew, .refused i fault canceled) ∈ t.log ∧ crew.Unstarted t.invoker fault

def Fails (t : Trial S) (failure : Failure) : Prop := ∃ crew i, (crew, .ended i (some failure)) ∈ t.log

/-- No builtin ended with a fault that tells of a stage. -/
def BuiltinsForeign (t : Trial S) : Prop := ∀ entry ∈ t.log, entry.1.BuiltinsForeign

/-- What the faults of a trial tell. -/
structure Clear (t : Trial S) : Prop where
  refused : ∀ crew i fault canceled, (crew, .refused i fault canceled) ∈ t.log →
    crew.Unopened t.invoker fault ∨ crew.Unstarted t.invoker fault
  failed : ∀ failure, t.Fails failure → failure.command ≠ "" ∧ failure.toFault.isNotFound = false

/-- The trial ended with the fault `fault`: with that of the command that was refused, or else with that of a
stage. -/
structure EndsWith (t : Trial S) (fault : Fault) : Prop where
  only : ∀ other, t.Refuses other → other = fault
  origin : t.Refuses fault ∨ ∃ failure, t.Fails failure ∧ fault = failure.toFault

/-- The fault of a trial is taken for that of a command which did not start exactly if there is one. -/
theorem EndsWith.isNotFound_iff {t : Trial S} {fault : Fault} (h : t.EndsWith fault) (hClear : t.Clear) :
    fault.isNotFound = true ↔ ∃ refusal, t.Unstarted refusal := by
  constructor
  · intro hFound
    rcases h.origin with ⟨crew, i, canceled, hMem⟩ | ⟨failure, hFails, rfl⟩
    · rcases hClear.refused crew i fault canceled hMem with hUnopened | hUnstarted
      · rw [hUnopened.isNotFound] at hFound
        cases hFound
      · exact ⟨fault, crew, i, canceled, hMem, hUnstarted⟩
    · rw [(hClear.failed failure hFails).2] at hFound
      cases hFound
  · rintro ⟨refusal, crew, i, canceled, hMem, hUnstarted⟩
    rw [← h.only refusal ⟨crew, i, canceled, hMem⟩]
    exact hUnstarted.isNotFound

end Trial

namespace Board

theorem mem_of_last_foldl_record {n : Nat} {es : List (Nat × Option Failure)} {b : Board} {failure : Failure}
    (h : (es.foldl (record n) b).last = some failure) : b.last = some failure ∨ ∃ i, (i, some failure) ∈ es := by
  induction es generalizing b with
  | nil => exact .inl h
  | cons e es ih =>
    rcases ih h with hLast | ⟨i, hMem⟩
    · obtain ⟨i, result⟩ := e
      by_cases hIs : i + 1 = n
      · have hResult : result = some failure := by simpa [record, complete, hIs] using hLast
        exact .inr ⟨i, hResult ▸ List.mem_cons_self⟩
      · left
        simpa [record, complete, hIs] using hLast
    · exact .inr ⟨i, List.mem_cons_of_mem e hMem⟩

theorem mem_of_verdict {n : Nat} {es : List (Nat × Option Failure)} {pipefail : Bool} {failure : Failure}
    (h : (es.foldl (record n) (opened pipefail)).verdict = some failure) : ∃ i, (i, some failure) ∈ es := by
  have hFirst := first_foldl_record n es (opened pipefail)
  have hLast := @mem_of_last_foldl_record n es (opened pipefail) failure
  have hOrigin : (es.foldl (record n) (opened pipefail)).first = some failure ∨
      (es.foldl (record n) (opened pipefail)).last = some failure := by
    unfold verdict at h
    split at h
    · rcases Option.or_eq_some_iff.mp h with hSome | ⟨-, hSome⟩
      · exact .inl hSome
      · exact .inr hSome
    · exact .inr h
  rcases hOrigin with hSome | hSome
  · have hFound : es.findSome? Prod.snd = some failure := hFirst.symm.trans hSome
    obtain ⟨⟨i, result⟩, hMem, rfl⟩ := List.exists_of_findSome?_eq_some hFound
    exact ⟨i, hMem⟩
  · rcases hLast hSome with hNone | hMem
    · cases hNone
    · exact hMem

end Board

namespace Trial

variable {C : Calls} {v : Invoker} {output : Output} {mayCall : Prop} {t : Trial C.State}
  {crew crew' : Crew C.State} {event : Event}

/-- What is known of a trial whose crew is `crew` by now. -/
structure Reaches (t : Trial C.State) (crew : Crew C.State) : Prop where
  named : crew.Named
  clear : t.Clear
  tally : ∃ s pipefail, s.board = .opened pipefail ∧
    Crew.Tally t.pipeline.commands.length s (t.log.map Prod.snd) crew
  only : ∀ fault, t.Refuses fault → crew.refusal = some fault

theorem Reaches.start {p : Pipeline} (hArgs : ∀ c ∈ p.commands, c.args ≠ []) (phase : Invoker.Phase) :
    Reaches (C := C) ⟨v, p, []⟩ (.start p.commands (v.openLine p phase)) where
  named := ⟨hArgs, by simp [Crew.start], by simp [Crew.start]⟩
  clear := ⟨by simp, by simp [Fails]⟩
  tally := ⟨_, _, rfl, Crew.Tally.start p.commands _⟩
  only := by simp [Refuses]

theorem Reaches.within (h : t.Reaches crew) (world : World) : t.Reaches (crew.within world) where
  named := ⟨h.named.pending, h.named.shown, h.named.candid⟩
  clear := h.clear
  tally := by
    obtain ⟨s, pipefail, hBoard, hTally⟩ := h.tally
    exact ⟨s, pipefail, hBoard, hTally.within world⟩
  only := h.only

theorem mem_log_add {t : Trial C.State} {entry : Crew C.State × Event} :
    entry ∈ (t.add crew event).log ↔ entry ∈ t.log ∨ entry = (crew, event) := by
  simp [add]

theorem Reaches.step (hPrograms : Host.Programs.Candid t.invoker.programs) (h : t.Reaches crew)
    (hBuiltins : crew.BuiltinsForeign) (hStep : Crew.Step t.invoker output C mayCall crew event crew') :
    (t.add crew event).Reaches crew' where
  named := h.named.step hPrograms hStep
  clear := by
    refine ⟨?_, ?_⟩
    · intro before i fault canceled hMem
      rcases mem_log_add.mp hMem with hMem | hLast
      · exact h.clear.refused before i fault canceled hMem
      · obtain ⟨rfl, rfl⟩ := Prod.mk.inj hLast
        exact hStep.refused.1
    · rintro failure ⟨before, i, hMem⟩
      rcases mem_log_add.mp hMem with hMem | hLast
      · exact h.clear.failed failure ⟨before, i, hMem⟩
      · obtain ⟨rfl, rfl⟩ := Prod.mk.inj hLast
        exact hStep.ended h.named hBuiltins
  tally := by
    obtain ⟨s, pipefail, hBoard, hTally⟩ := h.tally
    refine ⟨s, pipefail, hBoard, ?_⟩
    have hNext := hTally.step hStep
    rwa [add, List.map_append]
  only := by
    rintro fault ⟨before, i, canceled, hMem⟩
    rcases mem_log_add.mp hMem with hMem | hLast
    · have hRefusal := h.only fault ⟨before, i, canceled, hMem⟩
      cases hEvent : event.isRefusal with
      | false => rw [hStep.refusal_eq hEvent, hRefusal]
      | true =>
        -- A second command cannot be refused.
        cases event with
        | refused j other canceled =>
          rw [hStep.refused.2.1] at hRefusal
          cases hRefusal
        | _ => cases hEvent
    · obtain ⟨rfl, rfl⟩ := Prod.mk.inj hLast
      exact hStep.refused.2.2

theorem mem_log_of_mem_events (h : event ∈ t.log.map Prod.snd) : ∃ crew, (crew, event) ∈ t.log := by
  obtain ⟨⟨crew, event⟩, hMem, rfl⟩ := List.mem_map.mp h
  exact ⟨crew, hMem⟩

theorem Reaches.endsWith (h : t.Reaches crew) {fault : Fault} (hVerdict : crew.verdict = some fault) :
    t.EndsWith fault := by
  obtain ⟨s, pipefail, hBoard, hTally⟩ := h.tally
  cases hRefusal : crew.refusal with
  | some refusal =>
    obtain rfl : refusal = fault := by simpa [Crew.verdict, hRefusal] using hVerdict
    obtain ⟨fault, canceled, hSame, hMem⟩ := hTally.refused (by rw [hRefusal]; rfl)
    obtain rfl : refusal = fault := Option.some.inj (hRefusal.symm.trans hSame)
    obtain ⟨before, hMem⟩ := mem_log_of_mem_events hMem
    refine ⟨?_, .inl ⟨before, _, canceled, hMem⟩⟩
    intro other hOther
    exact Option.some.inj ((h.only other hOther).symm.trans hRefusal)
  | none =>
    rw [Crew.verdict, hRefusal, Option.none_or, Option.map_eq_some_iff] at hVerdict
    obtain ⟨failure, hFailure, rfl⟩ := hVerdict
    rw [hTally.board, hBoard] at hFailure
    obtain ⟨i, hEnding⟩ := Board.mem_of_verdict hFailure
    obtain ⟨before, hMem⟩ := mem_log_of_mem_events (mem_endings.mp hEnding)
    refine ⟨?_, .inr ⟨failure, ⟨before, i, hMem⟩, rfl⟩⟩
    intro other hOther
    have hSome := h.only other hOther
    rw [hRefusal] at hSome
    cases hSome

end Trial

def Pipeline.Named (p : Pipeline) : Prop := ∀ c ∈ p.commands, c.args ≠ []

namespace Plan

/-- A plan that ends with a fault ends with the fault of the pipeline before, `last` if none is left to try. -/
def Faithful : Option Fault → Plan → Prop
  | last, .done result => ∀ fault, result = .error fault → last = some fault
  | _, .attempt _ p next => p.Named ∧ ∀ fault text, (next fault text).Faithful fault

theorem faithful_alternatives {output : Output} {next : Except Fault Bytes → Plan}
    (hNext : ∀ last result, (∀ fault, result = .error fault → last = some fault) → (next result).Faithful last)
    {ps : List Pipeline} (hNamed : ∀ p ∈ ps, p.Named) (last : Option Fault) :
    (alternatives output next ps).Faithful last := by
  induction ps generalizing last with
  | nil => exact hNext last _ (by simp)
  | cons p rest ih =>
    obtain ⟨hp, hRest⟩ := List.forall_mem_cons.mp hNamed
    refine ⟨hp, ?_⟩
    intro fault text
    cases fault with
    | none => exact hNext none _ (by simp)
    | some fault =>
      dsimp only
      split
      · exact hNext _ _ (by simp)
      · split
        · exact hNext _ _ (by simp)
        · exact ih hRest (some fault)

theorem faithful_statements {m : Mode} {ss : List Statement} (hNamed : ∀ s ∈ ss, ∀ p ∈ s.alternatives, p.Named)
    (text : Bytes) (last : Option Fault) : (statements m text ss).Faithful last := by
  induction ss generalizing text last with
  | nil =>
    rintro fault ⟨⟩
  | cons s rest ih =>
    obtain ⟨hs, hRest⟩ := List.forall_mem_cons.mp hNamed
    refine faithful_alternatives ?_ hs last
    intro last result hResult
    cases result with
    | error fault => exact hResult
    | ok text => exact ih hRest text last

end Plan

namespace Invocation

/-- The script in `text` before it is run. One that cannot be read is over. -/
def ofText {S : Type} (context : Context) (m : Mode) (file : String) (line : Int) (text : String) : Invocation S :=
  match Script.parse ⟨context.symbols, file, line⟩ text with
  | .error mistake => .ended (.error (.mistake mistake))
  | .ok script => .fresh context m script

def isRunning {S : Type} : Invocation S → Bool
  | .running _ _ _ _ _ _ => true
  | _ => false

/-- Steps of a script one after the other, as in a course, with the pipelines that are tried on the way. -/
inductive Tries (programs : Host.Programs) (C : Calls) (mayCall : Nat → Prop) (apart : World → World → Prop)
    (x : Invocation C.State × World) : List (Trial C.State) → Invocation C.State × World → Prop
  | start : Tries programs C mayCall apart x [] x
  | take {trials : List (Trial C.State)} {v : Invoker} {scope : Scope} {canceled stopped : Bool} {output : Output}
      {p : Pipeline} {next : Option Fault → Bytes → Plan} {w : World}
      (h : Tries programs C mayCall apart x trials (.between v scope canceled stopped (.attempt output p next), w)) :
    Tries programs C mayCall apart x (trials ++ [⟨v, p, []⟩])
      (.running v canceled output p next
        (.start p.commands (v.openLine p ⟨v.traced p w, scope, canceled, stopped⟩)), v.traced p w)
  | run {trials : List (Trial C.State)} {t : Trial C.State} {v : Invoker} {canceled : Bool} {output : Output}
      {p : Pipeline} {next : Option Fault → Bytes → Plan} {crew crew' : Crew C.State} {event : Event} {w : World}
      (h : Tries programs C mayCall apart x (trials ++ [t]) (.running v canceled output p next crew, w))
      (hStep : Crew.Step v output C (mayCall p.commands.length) (crew.within w) event crew') :
    Tries programs C mayCall apart x (trials ++ [t.add (crew.within w) event])
      (.running v canceled output p next crew', crew'.line.world)
  | other {trials : List (Trial C.State)} {y z : Invocation C.State × World}
      (h : Tries programs C mayCall apart x trials y) (hStep : Step programs C mayCall y z)
      (hRests : z.1.isRunning = false) :
    Tries programs C mayCall apart x trials z
  | outside {trials : List (Trial C.State)} {call : Invocation C.State} {w w' : World}
      (h : Tries programs C mayCall apart x trials (call, w)) (hApart : apart w w') :
    Tries programs C mayCall apart x trials (call, w')

variable {programs : Host.Programs} {C : Calls} {mayCall : Nat → Prop} {apart : World → World → Prop}
  {x y : Invocation C.State × World} {trials : List (Trial C.State)}

theorem Tries.exists_last (h : Tries programs C mayCall apart x trials y) (hStart : x.1.isRunning = false)
    (hRunning : y.1.isRunning = true) : ∃ earlier t, trials = earlier ++ [t] := by
  induction h with
  | start =>
    rw [hStart] at hRunning
    cases hRunning
  | take h ih => exact ⟨_, _, rfl⟩
  | run h hStep ih => exact ⟨_, _, rfl⟩
  | other h hStep hRests ih =>
    rw [hRests] at hRunning
    cases hRunning
  | outside h hApart ih => exact ih hRunning

theorem exists_tries (hStart : x.1.isRunning = false)
    (hCourse : (invocations programs C mayCall).Course apart x y) :
    ∃ trials, Tries programs C mayCall apart x trials y := by
  induction hCourse with
  | refl => exact ⟨[], .start⟩
  | @tail y z _ hNext ih =>
    obtain ⟨trials, hTries⟩ := ih
    obtain ⟨call, w⟩ := y
    obtain ⟨call', w'⟩ := z
    rcases hNext with hStep | ⟨hSame, hApart⟩
    · have hStep : Step programs C mayCall (call, w) (call', w') := hStep
      cases hStep with
      | enter => exact ⟨trials, .other hTries .enter rfl⟩
      | take => exact ⟨_, .take hTries⟩
      | run hCrew =>
        obtain ⟨earlier, t, rfl⟩ := hTries.exists_last hStart rfl
        exact ⟨_, .run hTries hCrew⟩
      | conclude hOver => exact ⟨trials, .other hTries (.conclude hOver) rfl⟩
      | leave => exact ⟨trials, .other hTries .leave rfl⟩
      | stop => exact ⟨trials, .other hTries .stop rfl⟩
    · cases hSame
      exact ⟨trials, .outside hTries hApart⟩

/-- What is known of a script that has tried `trials`. -/
def Explained (programs : Host.Programs) (trials : List (Trial C.State)) : Invocation C.State → Prop
  | .fresh _ _ script => trials = [] ∧ ∀ s ∈ script.statements, ∀ p ∈ s.alternatives, p.Named
  | .between v _ _ _ plan =>
    v.programs = programs ∧ ∃ last, plan.Faithful last ∧
      ∀ fault, last = some fault → ∃ t ∈ trials.getLast?, t.EndsWith fault
  | .running v _ _ p next crew =>
    v.programs = programs ∧ (∀ fault text, (next fault text).Faithful fault) ∧
      ∃ t ∈ trials.getLast?, t.invoker = v ∧ t.pipeline = p ∧ t.Reaches crew
  | .ended result =>
    ∀ fault, result = .error fault →
      (trials = [] ∧ ∃ mistake, fault = .mistake mistake) ∨ ∃ t ∈ trials.getLast?, t.EndsWith fault

theorem named_of_parse {s : Setting} {text : String} {script : Script} (h : Script.parse s text = .ok script) :
    ∀ st ∈ script.statements, ∀ p ∈ st.alternatives, p.Named := by
  rw [Script.parse_eq] at h
  obtain ⟨c, -, h⟩ := bind_eq_ok h
  obtain ⟨sts, hStatements, rfl⟩ := Setting.map_eq_ok h
  intro st hst p hp c hc
  exact ((Setting.statements_sound hStatements st hst p hp).1.commands c hc).args_ne_nil

theorem explained_ofText (context : Context) (m : Mode) (file : String) (line : Int) (text : String) :
    (ofText context m file line text : Invocation C.State).Explained programs [] := by
  unfold ofText
  split
  · next mistake hParse =>
    rintro fault ⟨⟩
    exact .inl ⟨rfl, mistake, rfl⟩
  · next script hParse => exact ⟨rfl, named_of_parse hParse⟩

theorem Explained.step {y z : Invocation C.State × World} (h : y.1.Explained programs trials)
    (hStep : Step programs C mayCall y z) (hRests : z.1.isRunning = false) : z.1.Explained programs trials := by
  cases hStep with
  | enter =>
    obtain ⟨rfl, hNamed⟩ := h
    exact ⟨rfl, none, Plan.faithful_statements hNamed [] none, by simp⟩
  | take => cases hRests
  | run hCrew => cases hRests
  | @conclude v canceled output p next crew w hOver =>
    obtain ⟨hPrograms, hNext, t, hLast, -, -, hReaches⟩ := h
    exact ⟨hPrograms, crew.verdict, hNext _ _, fun fault hVerdict => ⟨t, hLast, hReaches.endsWith hVerdict⟩⟩
  | @leave v scope canceled stopped result w =>
    obtain ⟨-, last, hPlan, hLast⟩ := h
    intro fault hFault
    cases result with
    | ok text => cases hFault
    | error fault' =>
      obtain rfl : fault' = fault := Except.error.inj hFault
      exact .inr (hLast fault' (hPlan fault' rfl))
  | stop => exact h

/-- Whatever has been tried so far, each trial is clear, and how the script goes on depends on the last. -/
theorem Tries.explained (hPrograms : Host.Programs.Candid programs) (hStart : x.1.Explained programs [])
    (h : Tries programs C mayCall apart x trials y) (hBuiltins : ∀ t ∈ trials, t.BuiltinsForeign) :
    y.1.Explained programs trials ∧ ∀ t ∈ trials, t.Clear := by
  induction h with
  | start => exact ⟨hStart, by simp⟩
  | @take trials v scope canceled stopped output p next w h ih =>
    obtain ⟨⟨hSame, last, ⟨hNamed, hNext⟩, -⟩, hClear⟩ := ih fun t ht => hBuiltins t (List.mem_append_left _ ht)
    have hReaches := Trial.Reaches.start (C := C) (v := v) hNamed ⟨v.traced p w, scope, canceled, stopped⟩
    refine ⟨⟨hSame, hNext, ⟨v, p, []⟩, by simp, rfl, rfl, hReaches⟩, ?_⟩
    exact List.forall_mem_append.mpr ⟨hClear, List.forall_mem_singleton.mpr hReaches.clear⟩
  | @run trials t v canceled output p next crew crew' event w h hStep ih =>
    obtain ⟨hEarlier, hLast⟩ := List.forall_mem_append.mp hBuiltins
    have hAdded := List.forall_mem_singleton.mp hLast
    have hBefore : t.BuiltinsForeign := fun entry hEntry => hAdded entry (Trial.mem_log_add.mpr (.inl hEntry))
    have hNow : (crew.within w).BuiltinsForeign := hAdded _ (Trial.mem_log_add.mpr (.inr rfl))
    obtain ⟨⟨hSame, hNext, t', ht', rfl, rfl, hReaches⟩, hClear⟩ :=
      ih (List.forall_mem_append.mpr ⟨hEarlier, List.forall_mem_singleton.mpr hBefore⟩)
    obtain rfl : t = t' := by simpa using ht'
    have hOn := (hReaches.within w).step (hSame ▸ hPrograms) hNow hStep
    refine ⟨⟨hSame, hNext, t.add (crew.within w) event, by simp, rfl, rfl, hOn⟩, ?_⟩
    exact List.forall_mem_append.mpr
      ⟨(List.forall_mem_append.mp hClear).1, List.forall_mem_singleton.mpr hOn.clear⟩
  | other h hStep hRests ih =>
    obtain ⟨hExplained, hClear⟩ := ih hBuiltins
    exact ⟨hExplained.step hStep hRests, hClear⟩
  | outside h hApart ih => exact ih hBuiltins

/-- A script fails as one whose command did not start exactly if, in the pipeline that it tried last, no process
could be started for a command that is no builtin. Whatever stage ran and failed, in any pipeline, is told under
its command and not as one that did not start, and what is wrong with a redirection is told as the file system
does. -/
theorem fails_notFound_iff {context : Context} {m : Mode} {file : String} {line : Int} {text : String}
    {w w' : World} {err : Fault} (hPrograms : Host.Programs.Candid programs)
    (hTries : Tries programs C mayCall apart (ofText context m file line text, w) trials (.ended (.error err), w'))
    (hBuiltins : ∀ t ∈ trials, t.BuiltinsForeign) :
    (err.isNotFound = true ↔ ∃ t ∈ trials.getLast?, ∃ refusal, t.Unstarted refusal) ∧
      (∀ t ∈ trials.getLast?, t.EndsWith err) ∧
      ∀ t ∈ trials,
        (∀ failure, t.Fails failure → failure.command ≠ "" ∧ failure.toFault.isNotFound = false) ∧
        ∀ crew i fault canceled, (crew, .refused i fault canceled) ∈ t.log →
          crew.Unopened t.invoker fault ∧ fault.isNotFound = false ∨ crew.Unstarted t.invoker fault := by
  obtain ⟨hEnded, hClear⟩ := hTries.explained hPrograms (explained_ofText context m file line text) hBuiltins
  have hAll : ∀ t ∈ trials,
      (∀ failure, t.Fails failure → failure.command ≠ "" ∧ failure.toFault.isNotFound = false) ∧
      ∀ crew i fault canceled, (crew, .refused i fault canceled) ∈ t.log →
        crew.Unopened t.invoker fault ∧ fault.isNotFound = false ∨ crew.Unstarted t.invoker fault := by
    intro t ht
    refine ⟨(hClear t ht).failed, ?_⟩
    intro crew i fault canceled hMem
    exact ((hClear t ht).refused crew i fault canceled hMem).imp_left fun h => ⟨h, h.isNotFound⟩
  rcases hEnded err rfl with ⟨rfl, mistake, rfl⟩ | ⟨t, hLast, hEnds⟩
  · refine ⟨?_, by simp, hAll⟩
    have hNot : (Fault.mistake mistake).isNotFound = false := rfl
    simp [hNot]
  · have hIff := hEnds.isNotFound_iff (hClear t (List.mem_of_getLast? hLast))
    refine ⟨?_, ?_, hAll⟩
    · rw [hIff]
      constructor
      · intro hUnstarted
        exact ⟨t, hLast, hUnstarted⟩
      · rintro ⟨t', hLast', hUnstarted⟩
        exact Option.mem_unique hLast' hLast ▸ hUnstarted
    · intro t' hLast'
      exact Option.mem_unique hLast hLast' ▸ hEnds

def missing : Command := ⟨["nosuch"], [], []⟩

theorem fails_notFound_missing :
    ∃ (trials : List (Trial Calls.tooDeep.State)) (w' : World),
      Host.Programs.Candid [("false", fun _ => Host.Tool.exit 1)] ∧
      Tries [("false", fun _ => Host.Tool.exit 1)] .tooDeep (· = 1) (fun _ _ => False)
        (ofText ⟨[], some 0, false⟩ .run "" 1 "fail a || nosuch", .bench []) trials
        (.ended (.error (Failure.ofStart "nosuch" (.notOnPath "nosuch")).toFault), w') ∧
      (∀ t ∈ trials, t.BuiltinsForeign) ∧ ∃ t ∈ trials.getLast?, ∃ refusal, t.Unstarted refusal := by
  let programs : Host.Programs := [("false", fun _ => Host.Tool.exit 1)]
  let v : Invoker := ⟨programs, ⟨[], some 0, false⟩, 0⟩
  let first : Pipeline := ⟨[Crew.failing "a"], false, "", 1⟩
  let second : Pipeline := ⟨[missing], false, "", 1⟩
  let line : Line := v.openLine first ⟨.bench [], .opened, false, false⟩
  let start : Launch := v.builtinLaunch .host 0 true (Crew.failing "a") line (.concurrent Builtin.fail)
  let worker : Worker Calls.tooDeep.State := start.worker
  let line' : Line := worker.stage.close (some (.plain "a")) start.desk line
  let failure : Failure := .ofFault "fail a" [] (.plain "a")
  let refusal : Fault := (Failure.ofStart "nosuch" (.notOnPath "nosuch")).toFault
  let fresh : Crew Calls.tooDeep.State := .start first.commands line
  let busy : Crew Calls.tooDeep.State := ⟨line, [], 1, [worker], none⟩
  let again : Crew Calls.tooDeep.State := .start second.commands line
  have hParse : Script.parse ⟨[], "", 1⟩ "fail a || nosuch" = .ok ⟨[⟨first, [second]⟩]⟩ := by decide +kernel
  have hText : (ofText ⟨[], some 0, false⟩ .run "" 1 "fail a || nosuch" : Invocation Calls.tooDeep.State) =
      .fresh ⟨[], some 0, false⟩ .run ⟨[⟨first, [second]⟩]⟩ := by
    unfold ofText
    rw [hParse]
  have hPath : Host.programPath (World.bench []).host "nosuch" = .error (.notOnPath "nosuch") := by decide +kernel
  have hLaunch : Crew.Step v .host .tooDeep (1 = 1) fresh (.launched 0) busy :=
    .launch rfl rfl (by simp [fresh, Crew.start]) (v.launch_builtin .host 0 true rfl rfl)
  have hOver : Acts .tooDeep (1 = 1) worker.stage (.on worker.work, line) (.ended (some failure), line') := .finish
  have hFinish : Crew.Step v .host .tooDeep (1 = 1) busy (.ended 0 (some failure)) ⟨line', [], 1, [], none⟩ :=
    @Crew.Step.finish v .host _ _ busy [] [] worker _ _ rfl hOver
  have hRefuse : Crew.Step v .host .tooDeep (1 = 1) again (.refused 0 refusal false)
      { again with line := { line with canceled := true }, refusal := some refusal } :=
    .refuse rfl rfl (by simp [again, Crew.start])
      (Invoker.launch_unstarted (w := .initial .host) rfl rfl (Host.start_of_programPath hPath _ _ _))
  let trials : List (Trial Calls.tooDeep.State) :=
    [⟨v, first, [(fresh, .launched 0), (busy, .ended 0 (some failure))]⟩,
      ⟨v, second, [(again, .refused 0 refusal false)]⟩]
  have hTries : Tries programs .tooDeep (· = 1) (fun _ _ => False)
      (.fresh ⟨[], some 0, false⟩ .run ⟨[⟨first, [second]⟩]⟩, .bench []) trials
      (.ended (.error refusal), .bench []) := by
    have hStart : Tries programs .tooDeep (· = 1) (fun _ _ => False)
        (.fresh ⟨[], some 0, false⟩ .run ⟨[⟨first, [second]⟩]⟩, .bench []) [] _ := .start
    have hTaken := (hStart.other .enter rfl).take
    have hBusy := hTaken.run hLaunch
    have hFirst := hBusy.run hFinish
    have hTried := (hFirst.other (.conclude ⟨rfl, .inl rfl⟩) rfl).take
    have hSecond := hTried.run hRefuse
    exact (hSecond.other (.conclude ⟨rfl, .inr rfl⟩) rfl).other .leave rfl
  have hPrograms : Host.Programs.Candid programs := by
    refine List.forall_mem_singleton.mpr fun spawn => ?_
    exact Foreign.error rfl
  have hFail : worker.work.Candid := Foreign.error rfl
  have hFirst : ∀ entry ∈ [(fresh, Event.launched 0), (busy, .ended 0 (some failure))], entry.1.BuiltinsForeign := by
    refine List.forall_mem_cons.mpr ⟨by rintro w ⟨⟩, List.forall_mem_singleton.mpr ?_⟩
    exact List.forall_mem_singleton.mpr fun _ => hFail.endsForeign
  have hSecond : ∀ entry ∈ [(again, Event.refused 0 refusal false)], entry.1.BuiltinsForeign :=
    List.forall_mem_singleton.mpr (by rintro w ⟨⟩)
  have hBuiltins : ∀ t ∈ trials, t.BuiltinsForeign :=
    List.forall_mem_cons.mpr ⟨hFirst, List.forall_mem_singleton.mpr hSecond⟩
  rw [← hText] at hTries
  exact ⟨_, _, hPrograms, hTries, hBuiltins, (fails_notFound_iff hPrograms hTries hBuiltins).1.mp rfl⟩

end Invocation

end Pipework
