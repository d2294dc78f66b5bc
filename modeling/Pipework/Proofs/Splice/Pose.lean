import Pipework.Proofs.Splice.Engine
import Pipework.Proofs.Splice.Flow

/-!
# Where a plain stage stands

A stage whose actions are plain stands before an action, or it offers something to the consumer of the pipeline's
output and waits. It makes no difference whether it waits for the end of its pipe or has not begun to read. What it
does next depends on nothing but its pipe having ended, and a stage that goes beside it does the same.
-/

namespace Pipework

/-- What launching a command and running a builtin have to do with each other. -/
def World.site (w : World) : (String → Option Builtin) × Bool := (w.builtin?, w.inMemory)

@[simp] theorem World.site_serve (w : World) (storage : Storage) (request : FileRequest) :
    (w.serve storage request).2.site = w.site := by
  obtain ⟨memory, tree, hServe⟩ := w.serve_eq storage request
  rw [hServe]
  rfl

@[simp] theorem Feed.ended_add (f : Feed) (data : Bytes) : (f.add data).ended = f.ended := rfl

/-- Has ended, or is still being written to; either way it has an end. -/
def Feed.Settles (f : Feed) : Prop := ∃ data, f = .ofBytes data ∨ f = .add .awaiting data

theorem Feed.Settles.of_ended {f : Feed} (h : f.Settles) (hEnded : f.ended = true) : ∃ data, f = .ofBytes data := by
  obtain ⟨data, rfl | rfl⟩ := h
  · exact ⟨data, rfl⟩
  · cases hEnded

theorem Feed.Settles.of_open {f : Feed} (h : f.Settles) (hOpen : f.ended = false) :
    ∃ data, f = .add .awaiting data := by
  obtain ⟨data, rfl | rfl⟩ := h
  · cases hOpen
  · exact ⟨data, rfl⟩

/-- There is an answer, now or when the consumer of the output has been waited for; nothing else can come in between.
The line is left such that `I` holds of it. -/
def Reply.IsPlain {α : Type} (I : Line → Prop) : Reply α → Prop
  | .done (desk, answer) line => answer.isSome = true ∧ desk.feed.cycle = [] ∧ I line
  | .wait _ line resume =>
    I line ∧ ∃ (desk : Desk) (answer : Signal → α), desk.feed.cycle = [] ∧
      resume = fun signal line => .done (desk, some (answer signal)) line

theorem Reply.IsPlain.map {α β : Type} {I : Line → Prop} {r : Reply α} (h : r.IsPlain I) (f : α → β) :
    (r.map f).IsPlain I := by
  cases r with
  | done x line =>
    obtain ⟨desk, answer⟩ := x
    obtain ⟨hSome, hRest⟩ := h
    exact ⟨by rwa [Option.isSome_map], hRest⟩
  | wait why line resume =>
    obtain ⟨hLine, desk, answer, hFeed, rfl⟩ := h
    exact ⟨hLine, desk, fun signal => f (answer signal), hFeed, rfl⟩

namespace Stage

/-- `I` is kept by all that a plain stage does to its line until it leaves. It writes to the pipe after it, and it
takes something from the pipe before it only if it `reads` that, which has ended then. -/
structure Keeps (st : Stage) (reads : Prop) (I : Line → Prop) : Prop where
  write : ∀ line data, I line → st.isLast = false → I (line.setPipe st.index ((line.pipe st.index).add data))
  read : reads → ∀ line data rest, I line → line.pipe (st.index - 1) = .ofBytes data →
    I (line.setPipe (st.index - 1) (.ofBytes rest))
  other : ∀ line world scope captured, I line → world.site = line.world.site →
    I { line with world := world, scope := scope, captured := captured }

variable {st : Stage} {reads : Prop} {I : Line → Prop} {line : Line} {desk : Desk}

theorem keeps_true (st : Stage) (reads : Prop) : st.Keeps reads fun _ => True :=
  ⟨fun _ _ _ _ => trivial, fun _ _ _ _ _ _ => trivial, fun _ _ _ _ _ _ => trivial⟩

theorem Keeps.world (hKeeps : st.Keeps reads I) (h : I line) {world : World} (hSite : world.site = line.world.site) :
    I { line with world := world } :=
  hKeeps.other line world line.scope line.captured h hSite

theorem afterWait_builtin (h : st.isProcess = false) {α : Type} (signal : Signal) (answer stopped : α) :
    st.afterWait signal answer stopped = some (if signal.isStop then stopped else answer) := by
  cases signal <;> simp [afterWait, Signal.isStop, h]

section Actions

variable (hProcess : st.isProcess = false) (hKeeps : st.Keeps reads I) (h : I line) (hFeed : desk.feed.cycle = [])

include hProcess hKeeps h hFeed

theorem deliver_plain (sink : Sink) (data : Bytes) : (st.deliver sink data desk line).IsPlain I := by
  have hDone {answer : Delivery} {line : Line} (h : I line) : Reply.IsPlain I (.done (desk, some answer) line) :=
    ⟨rfl, hFeed, h⟩
  cases sink with
  | null => exact hDone h
  | errors => exact ⟨rfl, hFeed, hKeeps.world h rfl⟩
  | file i =>
    unfold deliver
    dsimp only
    split
    · exact hDone h
    · exact ⟨rfl, hFeed, hKeeps.world h (World.site_serve _ _ _)⟩
  | output =>
    unfold deliver
    dsimp only
    split
    · next hInner =>
      split
      · exact hDone h
      · exact hDone (hKeeps.write line data h (by simpa using hInner))
    · split
      · exact hDone (hKeeps.world h rfl)
      · exact hDone (hKeeps.other line line.world line.scope _ h rfl)
      · split
        · exact hDone h
        · split
          · exact hDone h
          · exact ⟨h, desk, _, hFeed, funext fun signal => funext fun line => by rw [afterWait_builtin hProcess]⟩

omit hProcess in
theorem read_done (hReads : st.source = .pipe → reads)
    (hInput : st.source = .pipe → ∃ data, line.pipe (st.index - 1) = .ofBytes data) (amount : Amount) :
    ∃ desk' answer line', st.read amount desk line = .done (desk', some answer) line' ∧ desk'.feed.cycle = [] ∧
      I line' := by
  unfold read
  split
  · exact ⟨_, _, _, rfl, hFeed, hKeeps.world h rfl⟩
  · exact ⟨_, _, _, rfl, (desk.feed.cycle_take amount).trans hFeed, h⟩
  · next hSource =>
    obtain ⟨data, hData⟩ := hInput hSource
    obtain ⟨answer, rest, hTake⟩ := Feed.take?_ofBytes data amount
    dsimp only
    rw [hData, hTake]
    exact ⟨_, _, _, rfl, hFeed, hKeeps.read (hReads hSource) line data rest h hData⟩

omit hProcess in
theorem scan_done (hReads : st.source = .pipe → reads)
    (hInput : st.source = .pipe → ∃ data, line.pipe (st.index - 1) = .ofBytes data) :
    ∃ desk' answer line', st.scan desk line = .done (desk', some answer) line' ∧ desk'.feed.cycle = [] ∧ I line' := by
  unfold scan
  split
  · exact ⟨_, _, _, rfl, hFeed, h⟩
  · exact read_done hKeeps h hFeed hReads hInput .all

theorem pour_plain (data : Bytes) : (st.pour data desk line).IsPlain I := by
  unfold pour
  split
  · exact ⟨rfl, hFeed, h⟩
  · exact deliver_plain hProcess hKeeps h hFeed st.out data

omit hProcess hKeeps h hFeed in
theorem isDone_pour (desk : Desk) (line : Line) (hInner : st.isLast = false) (data : Bytes) :
    (st.pour data desk line).isDone = true := by
  unfold pour
  split
  · rfl
  · unfold deliver
    rw [hInner]
    split
    · rfl
    · rfl
    · dsimp only
      split <;> rfl
    · simp only [Bool.not_false, if_true]
      split <;> rfl

theorem relay_plain (hReads : st.source = .pipe → reads)
    (hInput : st.source = .pipe → ∃ data, line.pipe (st.index - 1) = .ofBytes data)
    (hLast : st.isLast = true → st.source ≠ .host) (filter : Filter) : (st.relay filter desk line).IsPlain I := by
  have hFinite : (st.inputFeed desk line).cycle = [] := by
    unfold inputFeed
    split
    · rfl
    · next hSource =>
      obtain ⟨data, hData⟩ := hInput hSource
      rw [hData]
      rfl
    · exact hFeed
  obtain ⟨desk', ⟨data, fault⟩, line', hScan, hFeed', h'⟩ := scan_done hKeeps h hFeed hReads hInput
  have hPour := pour_plain hProcess hKeeps h' hFeed' (filter.apply none data)
  have hUsed {line : Line} (n : Nat) (h : I line) : I (if st.source = .host then line.dropInput n else line) := by
    split
    · exact hKeeps.world h rfl
    · exact h
  unfold relay
  rw [if_neg (not_not_intro hFinite), hScan]
  dsimp only [Run.bind]
  cases hPoured : st.pour (filter.apply none data) desk' line' with
  | done x line'' =>
    obtain ⟨desk'', delivery⟩ := x
    rw [hPoured] at hPour
    obtain ⟨hSome, hFeed'', h''⟩ := hPour
    obtain ⟨⟨taken, refusal⟩, rfl⟩ := Option.isSome_iff_exists.mp hSome
    cases refusal <;> exact ⟨rfl, hFeed'', hUsed _ h''⟩
  | wait why line'' resume =>
    rw [hPoured] at hPour
    obtain ⟨h'', desk'', delivery, hFeed'', rfl⟩ := hPour
    have hIsLast : st.isLast = true := by
      by_contra hInner
      have hDone := st.isDone_pour desk' line' (by simpa using hInner)
        (filter.apply none data)
      rw [hPoured] at hDone
      cases hDone
    refine ⟨h'', desk'', fun signal => ?_, hFeed'', funext fun signal => funext fun line => ?_⟩
    · exact match delivery signal with
        | ⟨_, none⟩ => (filter.apply none data, fault)
        | ⟨_, some refusal⟩ => ([], some refusal)
    · simp only [Run.bind, if_neg (hLast hIsLast)]
      rcases delivery signal with ⟨taken, _ | refusal⟩ <;> rfl

theorem perform_plain (nested : Nested) {action : Action} (hAction : action.isPlain = true)
    (hReads : st.source = .pipe → action.takes = true → reads)
    (hInput : st.source = .pipe → action.takes = true → ∃ data, line.pipe (st.index - 1) = .ofBytes data)
    (hLast : st.isLast = true → st.source ≠ .host) : (st.perform nested desk line action).IsPlain I := by
  cases action with
  | write channel data =>
    cases channel with
    | out => exact (deliver_plain hProcess hKeeps h hFeed st.out data).map _
    | err => exact (deliver_plain hProcess hKeeps h hFeed st.err data).map _
  | read amount =>
    obtain ⟨desk', answer, line', hRead, hRest⟩ :=
      read_done hKeeps h hFeed (hReads · rfl) (hInput · rfl) amount
    change Reply.IsPlain I (st.read amount desk line)
    rw [hRead]
    exact ⟨rfl, hRest⟩
  | relay filter => exact relay_plain hProcess hKeeps h hFeed (hReads · rfl) (hInput · rfl) hLast filter
  | lookup key => exact ⟨rfl, hFeed, h⟩
  | assign key value => exact ⟨rfl, hFeed, hKeeps.other line _ _ line.captured h rfl⟩
  | workDirectory => exact ⟨rfl, hFeed, h⟩
  | files storage request => exact ⟨rfl, hFeed, hKeeps.world h (World.site_serve _ _ _)⟩
  | inquire side => exact ⟨rfl, hFeed, h⟩
  | consult name ask => exact ⟨rfl, hFeed, hKeeps.world h rfl⟩
  | flood data => cases hAction
  | pause => cases hAction
  | invoke file number script => cases hAction

end Actions

variable (desk) in
/-- An action that reads a pipe waits for its end, and then does what it would have done if it had begun only then. -/
theorem perform_waits (hProcess : st.isProcess = false) (hSource : st.source = .pipe) {action : Action}
    (hAction : action.isPlain = true) (hTakes : action.takes = true) {written : Bytes}
    (hOpen : line.pipe (st.index - 1) = .add .awaiting written) (nested : Nested) :
    ∃ why resume, st.perform nested desk line action = .wait why line resume ∧
      ∀ signal line data, line.pipe (st.index - 1) = .ofBytes data →
        resume signal line = st.perform nested desk line action := by
  have hWaits : (Feed.add .awaiting written).take? .all = none := rfl
  -- Both kinds of reading come down to a read of everything.
  have hRead : ∃ why resume, st.read .all desk line = .wait why line resume ∧
      ∀ signal line data, line.pipe (st.index - 1) = .ofBytes data →
        resume signal line = st.read .all desk line := by
    unfold read
    simp only [hSource, hOpen, hWaits]
    refine ⟨_, _, rfl, fun signal line data hData => ?_⟩
    simp only [hData, Feed.take?_all_ofBytes, Option.getD_some, afterWait_builtin hProcess, ite_self]
  obtain ⟨why, resume, hRead, hResume⟩ := hRead
  have hScan (line : Line) : st.scan desk line = st.read .all desk line := by simp [scan, hSource]
  have hFinite {line : Line} (h : (line.pipe (st.index - 1)).cycle = []) : (st.inputFeed desk line).cycle = [] := by
    simp [inputFeed, hSource, h]
  cases action with
  | read amount =>
    obtain rfl : amount = .all := of_decide_eq_true hAction
    exact ⟨why, resume, hRead, hResume⟩
  | relay filter =>
    obtain ⟨f, hRelay⟩ : ∃ f, ∀ line : Line, (line.pipe (st.index - 1)).cycle = [] →
        st.relay filter desk line = Run.bind (st.read .all desk line) f :=
      ⟨_, fun line h => (if_neg (not_not_intro (hFinite h))).trans (congrArg (Run.bind · _) (hScan line))⟩
    refine ⟨why, fun signal line => (resume signal line).bind f, ?_, fun signal line data hData => ?_⟩
    · have hFirst := hRelay line (by rw [hOpen]; rfl)
      rw [hRead] at hFirst
      exact hFirst
    · dsimp only
      rw [hResume signal line data hData]
      exact (hRelay line (by rw [hData]; rfl)).symm
  | _ => cases hTakes

/-- What runs scripts matters only if a script is run. -/
theorem perform_nested (st : Stage) {action : Action} (hAction : action.isPlain = true) (nested nested' : Nested)
    (desk : Desk) (line : Line) : st.perform nested desk line action = st.perform nested' desk line action := by
  cases action with
  | write channel data => cases channel <;> rfl
  | invoke file number script => cases hAction
  | _ => rfl

end Stage

abbrev Nested.idle : Nested := nestedRun [] 0

/-- Where a plain stage stands. -/
inductive Pose where
  | before (program : Program (Except Fault Unit)) (desk : Desk)
  | offering {action : Action} (answer : Signal → action.Answer)
    (next : action.Answer → Program (Except Fault Unit)) (desk : Desk)

namespace Pose

def IsPlain : Pose → Prop
  | before program desk => program.IsPlain ∧ desk.feed.cycle = []
  | @offering action _ next desk => (Program.act action next).IsPlain ∧ desk.feed.cycle = []

/-- The stage `st` is at an action that takes something from its pipe. -/
def Reads (st : Stage) : Pose → Prop
  | before (.act action _) _ => st.source = .pipe ∧ action.takes = true
  | before (.done _) _ => False
  | @offering action _ _ _ => st.source = .pipe ∧ action.takes = true

def isDone : Pose → Bool
  | before (.done _) _ => true
  | _ => false

theorem eq_of_isDone {pose : Pose} (h : pose.isDone = true) : ∃ result desk, pose = before (.done result) desk := by
  cases pose with
  | before program desk =>
    cases program with
    | done result => exact ⟨result, desk, rfl⟩
    | act action next => cases h
  | offering answer next desk => cases h

/-- What becomes of the stage `st` in its next turn; `signal` is what ends a wait. -/
def next {S : Type} (st : Stage) (signal : Signal) : Pose → Line → Turn S × Line
  | before (.act action next) desk, line => st.after next (st.perform .idle desk line action)
  | before (.done result) desk, line => st.closed (endFault result) desk line
  | offering answer next desk, line => (.on (.ready (next (answer signal)) desk), line)

end Pose

/-- What the stage `st` is in the middle of amounts to `pose`. A wait for the end of its pipe amounts to standing before
the action that waits. -/
inductive Work.Holds {S : Type} (st : Stage) : Work S → Pose → Prop
  | before {program : Program (Except Fault Unit)} {desk : Desk} :
    Holds st (.ready program desk) (.before program desk)
  | reading {action : Action} {resume : Signal → Line → Reply action.Answer}
      {next : action.Answer → Program (Except Fault Unit)} {desk : Desk} (hSource : st.source = .pipe)
      (hTakes : action.takes = true)
      (hResume : ∀ signal line data, line.pipe (st.index - 1) = .ofBytes data →
        resume signal line = st.perform .idle desk line action) :
    Holds st (.waiting resume next) (.before (.act action next) desk)
  | offering {action : Action} {answer : Signal → action.Answer} {next : action.Answer → Program (Except Fault Unit)}
      {desk : Desk} :
    Holds st (.waiting (fun signal line => .done (desk, some (answer signal)) line) next) (.offering answer next desk)

theorem Pose.Reads.source {st : Stage} {pose : Pose} (h : pose.Reads st) : st.source = .pipe := by
  cases pose with
  | before program desk =>
    cases program with
    | done result => exact h.elim
    | act action next => exact h.1
  | offering answer next desk => exact h.1

theorem Action.amount_of_isPlain {action : Action} (h : action.isPlain = true) : action.amount = .all := by
  cases action with
  | read amount => exact of_decide_eq_true h
  | _ => rfl

/-- Of its input a plain stage takes everything. -/
theorem Work.Holds.amount {S : Type} {st : Stage} {work : Work S} {pose : Pose} (h : work.Holds st pose)
    (hPlain : pose.IsPlain) : work.amount = .all := by
  cases h with
  | before => rfl
  | reading => exact Action.amount_of_isPlain hPlain.1.1
  | offering => exact Action.amount_of_isPlain hPlain.1.1

theorem Work.Holds.reads {S : Type} {st : Stage} {work : Work S} {pose : Pose} (h : work.Holds st pose)
    (hReading : work.isReading = true) (hSource : st.source = .pipe) : pose.Reads st := by
  cases h with
  | before => cases hReading
  | reading hSource hTakes => exact ⟨hSource, hTakes⟩
  | offering => exact ⟨hSource, hReading⟩

section Turns

variable {C : Calls} {mayCall : Prop} {st : Stage} {work : Work C.State} {pose : Pose} {line : Line}

/-- A plain stage that is at work may begin to wait for the end of its pipe. Otherwise it goes on as its pose says. -/
theorem Work.Holds.acts (h : work.Holds st pose) (hPlain : pose.IsPlain) (hProcess : st.isProcess = false)
    (hSettles : st.source = .pipe → (line.pipe (st.index - 1)).Settles)
    (hDue : work.isReading = true → st.source = .pipe → (line.pipe (st.index - 1)).ended = true)
    {x : Turn C.State × Line} (hActs : Acts C mayCall st (.on work, line) x) :
    (∃ work', x = (.on work', line) ∧ work'.Holds st pose) ∨
      ∃ signal, (signal.isStop = true → line.canceled = true) ∧
        (pose.Reads st → ∃ data, line.pipe (st.index - 1) = .ofBytes data) ∧ x = pose.next st signal line := by
  have hCalm : Signal.isStop .ready = true → line.canceled = true := fun h => by cases h
  cases h with
  | @before program desk =>
    cases hActs with
    | @act action next _ _ nested hInvokes =>
      rw [st.perform_nested hPlain.1.1 nested .idle]
      by_cases hReads : st.source = .pipe ∧ action.takes = true
      · cases hEnded : (line.pipe (st.index - 1)).ended with
        | true => exact .inr ⟨.ready, hCalm, fun _ => (hSettles hReads.1).of_ended hEnded, rfl⟩
        | false =>
          obtain ⟨written, hOpen⟩ := (hSettles hReads.1).of_open hEnded
          obtain ⟨why, resume, hWaits, hResume⟩ :=
            Stage.perform_waits desk hProcess hReads.1 hPlain.1.1 hReads.2 hOpen .idle
          rw [hWaits]
          exact .inl ⟨_, rfl, .reading hReads.1 hReads.2 hResume⟩
      · exact .inr ⟨.ready, hCalm, fun h => absurd h hReads, rfl⟩
    | call hCall => cases hPlain.1.1
    | kill hIsProcess hCanceled => simp [hProcess] at hIsProcess
    | finish => exact .inr ⟨.ready, hCalm, False.elim, rfl⟩
  | @reading action resume next desk hSource hTakes hResume =>
    cases hActs with
    | resume signal hStop =>
      obtain ⟨data, hData⟩ := (hSettles hSource).of_ended (hDue hTakes hSource)
      rw [hResume signal line data hData]
      exact .inr ⟨signal, hStop, fun _ => ⟨data, hData⟩, rfl⟩
  | @offering action answer next desk =>
    cases hActs with
    | resume signal hStop =>
      exact .inr ⟨signal, hStop, fun hReads => (hSettles hReads.1).of_ended (hDue hReads.2 hReads.1), rfl⟩

theorem Work.Holds.goes (h : work.Holds st pose) (hPlain : pose.IsPlain)
    (hInput : pose.Reads st → ∃ data, line.pipe (st.index - 1) = .ofBytes data) {signal : Signal}
    (hStop : signal.isStop = true → line.canceled = true) :
    Acts C mayCall st (.on work, line) (pose.next st signal line) := by
  cases h with
  | @before program desk =>
    cases program with
    | done result => exact .finish
    | act action next => exact .act .idle (Action.invokes_of_isPlain hPlain.1.1)
  | @reading action resume next desk hSource hTakes hResume =>
    obtain ⟨data, hData⟩ := hInput ⟨hSource, hTakes⟩
    have hSame := hResume signal line data hData
    have hActs : Acts C mayCall st (.on (.waiting resume next), line) _ := .resume signal hStop
    rw [hSame] at hActs
    exact hActs
  | @offering action answer next desk => exact .resume signal hStop

end Turns

namespace Stage

variable {S : Type} {action : Action} {next : action.Answer → Program (Except Fault Unit)} {I : Line → Prop}

theorem after_plain (st : Stage) (hPlain : (Program.act action next).IsPlain) {reply : Reply action.Answer}
    (h : reply.IsPlain I) : ∃ work line pose, st.after (S := S) next reply = (.on work, line) ∧
      (∀ st', work.Holds st' pose) ∧ pose.IsPlain ∧ I line := by
  cases reply with
  | done x line =>
    obtain ⟨desk, answer⟩ := x
    obtain ⟨hSome, hFeed, hLine⟩ := h
    obtain ⟨answer, rfl⟩ := Option.isSome_iff_exists.mp hSome
    exact ⟨_, line, .before (next answer) desk, rfl, fun _ => .before, ⟨hPlain.2 answer, hFeed⟩, hLine⟩
  | wait why line resume =>
    obtain ⟨hLine, desk, answer, hFeed, rfl⟩ := h
    exact ⟨_, line, .offering answer next desk, rfl, fun _ => .offering, ⟨hPlain, hFeed⟩, hLine⟩

theorem after_alike {R : Line → Line → Prop} {W : Wait → Wait → Prop} (st st' : Stage)
    {reply reply' : Reply action.Answer} (h : Run.Beside R W reply reply') {I' : Line → Prop} (hPlain : reply.IsPlain I)
    (hPlain' : reply'.IsPlain I') :
    (st'.after (S := S) next reply').1 = (st.after next reply).1 ∧
      R (st.after (S := S) next reply).2 (st'.after (S := S) next reply').2 := by
  cases h with
  | @done x line line' hLine =>
    obtain ⟨desk, answer⟩ := x
    obtain ⟨answer, rfl⟩ := Option.isSome_iff_exists.mp hPlain.1
    exact ⟨rfl, hLine⟩
  | @wait why why' line line' resume resume' hLine hWhy hResume =>
    obtain ⟨-, desk, answer, -, rfl⟩ := hPlain
    obtain ⟨-, desk', answer', -, rfl⟩ := hPlain'
    have hSame (signal : Signal) : desk' = desk ∧ answer' signal = answer signal := by
      simpa using (hResume signal line line' hLine).result
    obtain rfl := (hSame .ready).1
    obtain rfl : answer' = answer := funext fun signal => (hSame signal).2
    exact ⟨rfl, hLine⟩

end Stage

namespace Pose

variable {S : Type} {st : Stage} {pose : Pose} {line : Line} (hPlain : pose.IsPlain) (hProcess : st.isProcess = false)
  (hLast : st.isLast = true → st.source ≠ .host)
  (hInput : pose.Reads st → ∃ data, line.pipe (st.index - 1) = .ofBytes data)

include hPlain hProcess hLast hInput

theorem next_keeps {I : Line → Prop} (hKeeps : st.Keeps (pose.Reads st) I) (h : I line) (hGoes : pose.isDone = false)
    (signal : Signal) :
    ∃ work line' pose', pose.next (S := S) st signal line = (.on work, line') ∧ (∀ st', work.Holds st' pose') ∧
      pose'.IsPlain ∧ I line' := by
  cases pose with
  | before program desk =>
    cases program with
    | done result => cases hGoes
    | act action next =>
      have hReply := Stage.perform_plain hProcess hKeeps h hPlain.2 .idle hPlain.1.1
        (fun hSource hTakes => ⟨hSource, hTakes⟩)
        (fun hSource hTakes => hInput ⟨hSource, hTakes⟩) hLast
      exact st.after_plain hPlain.1 hReply
  | offering answer next desk =>
    exact ⟨_, line, .before (next (answer signal)) desk, rfl, fun _ => .before, ⟨hPlain.1.2 _, hPlain.2⟩, h⟩

theorem next_alike {ts : Bytes × Bytes} {e : Nat → Nat} (he : e.Injective) {K : Nat → Prop} {d : Nat}
    (hPlace : st.Renumbers e K d (pose.Reads st)) (hShifts : pose.isDone = true → Shifts e d st.index) {line' : Line}
    (hInput' : pose.Reads st → ∃ data, line'.pipe (st.index + d - 1) = .ofBytes data) (h : line.Alike ts e K line')
    (signal : Signal) :
    (pose.next (S := S) (st.further d) signal line').1 = (pose.next st signal line).1 ∧
      (pose.next (S := S) st signal line).2.Alike ts e K (pose.next (S := S) (st.further d) signal line').2 := by
  cases pose with
  | before program desk =>
    cases program with
    | done result => exact ⟨rfl, Stage.close_alike he h (hShifts rfl) _ desk⟩
    | act action next =>
      have hRenumbers : st.Renumbers e K d (action.takes = true) :=
        ⟨hPlace.own, hPlace.kept, fun hTakes hSource => hPlace.before ⟨hSource, hTakes⟩ hSource⟩
      have hBeside := Stage.perform_alike he h (nestedRun_untraced [] 0) desk action hRenumbers
      refine Stage.after_alike st (st.further d) hBeside (?_ : Reply.IsPlain (fun _ => True) _)
        (?_ : Reply.IsPlain (fun _ => True) _)
      · exact Stage.perform_plain hProcess (st.keeps_true True) trivial hPlain.2 .idle hPlain.1.1 (fun _ _ => trivial)
          (fun hSource hTakes => hInput ⟨hSource, hTakes⟩) hLast
      · have hProcess' : (st.further d).isProcess = false := hProcess
        exact Stage.perform_plain hProcess' ((st.further d).keeps_true True) trivial hPlain.2 .idle hPlain.1.1
          (fun _ _ => trivial) (fun hSource hTakes => hInput' ⟨hSource, hTakes⟩) hLast
  | offering answer next desk => exact ⟨rfl, h⟩

end Pose

end Pipework
