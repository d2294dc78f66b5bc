import Pipework.Proofs.Mock.Stage
import Pipework.Proofs.Stage.Lone

/-!
# The record of the calls

A mock records each call that could read its input, in the order in which they were made, whatever it has for them and
however they end. What is recorded as input is what a handler then works on. A call whose input breaks off leaves no
record.
-/

namespace Pipework

/-- What is recorded of a call for which reading all of the input comes to `input`: nothing if the input breaks off. The
input of the host is left alone. -/
def Proc.recorded? (p : Proc) (input : Bytes × Option Fault) : Option Call :=
  if p.hostInput then some ⟨p.args, p.env, none⟩
  else match input with
    | (data, none) => some ⟨p.args, p.env, if data = [] then none else some data⟩
    | (_, some _) => none

def Surroundings.giving (data : Bytes) : Surroundings := fun past action =>
  match action with
  | .read _ => (data, none)
  | action => Surroundings.willing past action

namespace Mock

variable {name : String} {s : Surroundings}

def Event.recorded? : Event → Option Call
  | .queue _ _ | .handle _ _ => none
  | .call p s => p.recorded? (s [] (.read .all))

theorem calls_enqueue (m : MockCommand) (r : Response) (pattern : Pattern) :
    (m.enqueue r pattern).calls = m.calls := by
  unfold enqueue
  split
  · rfl
  · split <;> rfl

theorem calls_serve (m : MockCommand) (pattern : Pattern) : (m.serve pattern).1.calls = m.calls := by
  unfold serve
  split
  · rfl
  · split <;> rfl

theorem calls_receive (m : MockCommand) (call : Call) : (m.receive call).1.calls = m.calls ++ [call] := by
  rcases m.serves_or_none call.args with ⟨pattern, handler, hServes⟩ | hNone
  · rw [receive_of_serves hServes]
    cases handler with
    | queue => exact calls_serve (m.record call) pattern
    | other reaction => rfl
  · rw [receive_of_none hNone]
    rfl

theorem calls_follow (past : List Deed) (got : Option Bytes) (m : MockCommand) (call : Call) :
    (follow name s past got (m.receive call)).2.calls = m.calls ++ [call] := by
  rcases follow_cases name s past got (m.receive call) with hSame | ⟨_, _, hKept⟩
  · exact (congrArg calls hSame).trans (calls_receive m call)
  · exact (congrArg calls hKept).trans (calls_receive m call)

theorem filter_some_ne_nil (data : Bytes) :
    (some data).filter (· ≠ []) = if data = [] then none else some data := by
  cases data <;> rfl

theorem calls_after (m : MockCommand) (e : Event) : (after name m e).calls = m.calls ++ e.recorded?.toList := by
  cases e with
  | queue r pattern => exact (calls_enqueue m r pattern).trans (List.append_nil m.calls).symm
  | handle reaction pattern => exact (List.append_nil m.calls).symm
  | call p s =>
    rw [after, call_eq, Event.recorded?]
    unfold Proc.recorded? Proc.intake
    cases p.hostInput with
    | true => exact calls_follow [] none m _
    | false =>
      generalize (s [] (.read .all) : Bytes × Option Fault) = input
      obtain ⟨data, _ | fault⟩ := input
      · refine (calls_follow _ (some data) m _).trans ?_
        rw [filter_some_ne_nil]
        rfl
      · exact (List.append_nil m.calls).symm

theorem calls_foldl (m : MockCommand) (events : List Event) :
    (events.foldl (after name) m).calls = m.calls ++ events.filterMap Event.recorded? := by
  induction events generalizing m with
  | nil => exact (List.append_nil m.calls).symm
  | cons e events ih =>
    rw [List.foldl_cons, ih, calls_after, List.append_assoc]
    cases h : e.recorded? with
    | none => rw [List.filterMap_cons_none h]; rfl
    | some entry => rw [List.filterMap_cons_some h]; rfl

theorem call_handled {m : MockCommand} {p : Proc} {data : Bytes} {pattern : Pattern} {reaction : Reaction}
    (hInput : p.hostInput = false) (hRead : s [] (.read .all) = (data, none))
    (hServes : m.Serves p.args pattern (.other reaction)) :
    (call name s m p).1 = ((Builtin.react reaction (some data)).play name s [⟨.read .all, (data, none)⟩] .empty).1 := by
  have hIntake : p.intake s = ([⟨.read .all, (data, none)⟩], .ok (some data)) := by
    rw [Proc.intake, hInput, hRead]
    rfl
  rw [call_eq, hIntake]
  dsimp only
  rw [receive_of_serves hServes, obey, follow_handler]

end Mock

/-- Whenever the run waits and when it ends, it has only added to the list `f`, whatever others do meanwhile; `Q` holds
of its result and of all that it has added itself. -/
def Run.Adds {σ α γ : Type} (f : σ → List γ) (Q : α → List γ → Prop) : σ → Run σ α → Prop
  | start, .done a last => ∃ own, f last = f start ++ own ∧ Q a own
  | start, .wait _ mid resume =>
    ∃ own, f mid = f start ++ own ∧ ∀ signal state, Adds f (fun a more => Q a (own ++ more)) state (resume signal state)

namespace Run.Adds

variable {σ α β γ : Type} {f : σ → List γ} {Q : α → List γ → Prop} {start mid : σ} {r : Run σ α}

theorem imp {Q' : α → List γ → Prop} (h : r.Adds f Q start) (hQ : ∀ a own, Q a own → Q' a own) :
    r.Adds f Q' start := by
  induction r generalizing start Q Q' with
  | done a last =>
    obtain ⟨own, hOwn, hHolds⟩ := h
    exact ⟨own, hOwn, hQ a own hHolds⟩
  | wait why mid resume ih =>
    obtain ⟨own, hOwn, hRest⟩ := h
    exact ⟨own, hOwn, fun signal state => ih signal state (hRest signal state) fun a more => hQ a (own ++ more)⟩

theorem after {own : List γ} (hOwn : f mid = f start ++ own) (h : r.Adds f (fun a more => Q a (own ++ more)) mid) :
    r.Adds f Q start := by
  cases r with
  | done a last =>
    obtain ⟨more, hMore, hHolds⟩ := h
    exact ⟨own ++ more, by rw [hMore, hOwn, List.append_assoc], hHolds⟩
  | wait why last resume =>
    obtain ⟨more, hMore, hRest⟩ := h
    refine ⟨own ++ more, by rw [hMore, hOwn, List.append_assoc], fun signal state => ?_⟩
    exact (hRest signal state).imp fun a _ hHolds => (List.append_assoc own more _).symm ▸ hHolds

theorem bind {R : β → List γ → Prop} {g : α → σ → Run σ β} (h : r.Adds f Q start)
    (hg : ∀ a own last, Q a own → (g a last).Adds f (fun b more => R b (own ++ more)) last) :
    (r.bind g).Adds f R start := by
  induction r generalizing start Q R with
  | done a last =>
    obtain ⟨own, hOwn, hHolds⟩ := h
    exact after hOwn (hg a own last hHolds)
  | wait why mid resume ih =>
    obtain ⟨own, hOwn, hRest⟩ := h
    refine ⟨own, hOwn, fun signal state => ih signal state (hRest signal state) fun a more last hHolds => ?_⟩
    exact (hg a (own ++ more) last hHolds).imp fun b rest hHolds => List.append_assoc own more rest ▸ hHolds

theorem comes (h : r.Adds f Q start) :
    r.Adds f (fun a own => Q a own ∧ ∃ last, r.Comes (fun _ => ()) a last) start := by
  induction r generalizing start Q with
  | done a last =>
    obtain ⟨own, hOwn, hHolds⟩ := h
    exact ⟨own, hOwn, hHolds, last, .done⟩
  | wait why mid resume ih =>
    obtain ⟨own, hOwn, hRest⟩ := h
    refine ⟨own, hOwn, fun signal state => (ih signal state (hRest signal state)).imp ?_⟩
    rintro a more ⟨hHolds, last, hComes⟩
    exact ⟨hHolds, last, .wait rfl hComes⟩

end Run.Adds

/-- The record of the calls of the mock called `name`. -/
def Line.calls (name : String) (l : Line) : List Call := (l.mock name).calls

theorem Reply.Answers.adds {α : Type} {name : String} {r : Reply α} {line : Line}
    (h : r.Answers name (line.mock name)) :
    r.Adds (Line.calls name) (fun x own => x.2.isSome = true ∧ own = []) line := by
  induction r generalizing line with
  | done x last =>
    obtain ⟨hAnswer, hMock⟩ := h
    exact ⟨[], by rw [Line.calls, hMock, List.append_nil, Line.calls], hAnswer, rfl⟩
  | wait why mid resume ih =>
    obtain ⟨hMock, hResume⟩ := h
    refine ⟨[], ?_, fun signal state => ih signal state (hResume signal state)⟩
    rw [Line.calls, hMock, List.append_nil, Line.calls]

namespace Program

variable {α β : Type} {name : String}

/-- The program runs no script, and whatever it asks the mock called `name`, the record of the calls stays. -/
def KeepsCalls (name : String) : Program α → Prop
  | .done _ => True
  | .act action next =>
    (∀ file line script, action ≠ .invoke file line script) ∧
      (∀ ask, action = .consult name ask → ∀ m, (ask m).1.calls = m.calls) ∧ ∀ answer, (next answer).KeepsCalls name

theorem KeepsCalls.bind {t : Program α} {f : α → Program β} (h : t.KeepsCalls name)
    (hf : ∀ a, (f a).KeepsCalls name) : (t.bind f).KeepsCalls name := by
  induction t with
  | done a => exact hf a
  | act action next ih => exact ⟨h.1, h.2.1, fun answer => ih answer (h.2.2 answer)⟩

theorem KeepsCalls.feeding {t : Program α} (h : t.KeepsCalls name) (feed : Feed) :
    (t.feeding feed).KeepsCalls name := by
  induction t generalizing feed with
  | done a => trivial
  | act action next ih =>
    have hNext (answer : action.Answer) (feed : Feed) : ((next answer).feeding feed).KeepsCalls name :=
      ih answer (h.2.2 answer) feed
    cases action with
    | read amount =>
      unfold Program.feeding
      split
      · exact hNext _ _
      · exact hNext _ _
    | relay filter =>
      -- What is ready is written, and what comes again and again is written without end.
      have hEnding : (if feed.cycle = [] then
            (next ((feed.through filter).ready, (feed.through filter).fault)).feeding feed.empty.2
          else .act (.flood (feed.through filter).cycle) fun fault =>
            (next ([], fault)).feeding feed.empty.2).KeepsCalls name := by
        split
        · exact hNext _ _
        · exact ⟨by rintro _ _ _ ⟨⟩, by rintro _ ⟨⟩, fun fault => hNext _ _⟩
      unfold Program.feeding
      dsimp only
      split
      · exact hEnding
      · refine ⟨by rintro _ _ _ ⟨⟩, by rintro _ ⟨⟩, fun fault => ?_⟩
        cases fault with
        | some fault => exact hNext _ _
        | none => exact hEnding
    | inquire side =>
      cases side with
      | input => exact hNext none feed
      | output => exact ⟨h.1, h.2.1, fun answer => hNext answer feed⟩
    | _ => exact ⟨h.1, h.2.1, fun answer => hNext answer feed⟩

/-- The program has the call recorded, if there is one, and apart from that keeps the record. -/
def Enters (name : String) : Option Call → Program α → Prop
  | none, t => t.KeepsCalls name
  | some call, t => ∃ next, t = .act (.consult name (·.receive call)) next ∧ ∀ answer, (next answer).KeepsCalls name

theorem Enters.feeding {recorded? : Option Call} {t : Program α} (h : t.Enters name recorded?) (feed : Feed) :
    (t.feeding feed).Enters name recorded? := by
  cases recorded? with
  | none => exact KeepsCalls.feeding h feed
  | some call =>
    obtain ⟨next, rfl, hNext⟩ := h
    exact ⟨_, rfl, fun answer => (hNext answer).feeding feed⟩

end Program

namespace Task

variable {α β : Type} {name : String}

def KeepsCalls (name : String) (t : Task α) : Prop := Program.KeepsCalls (α := Except Fault α) name t

theorem keepsCalls_pure (a : α) : KeepsCalls name (pure a : Task α) := trivial

theorem KeepsCalls.bind {t : Task α} {f : α → Task β} (h : t.KeepsCalls name) (hf : ∀ a, (f a).KeepsCalls name) :
    (t >>= f).KeepsCalls name := by
  refine Program.KeepsCalls.bind h fun result => ?_
  cases result with
  | ok a => exact hf a
  | error fault => trivial

theorem keepsCalls_check (fault : Option Fault) : (check fault).KeepsCalls name := by
  cases fault <;> trivial

theorem keepsCalls_write (channel : Channel) (data : Bytes) : (write channel data).KeepsCalls name :=
  KeepsCalls.bind (t := perform (.write channel data))
    ⟨by rintro _ _ _ ⟨⟩, by rintro _ ⟨⟩, fun _ => trivial⟩ keepsCalls_check

theorem keepsCalls_relay : relay.KeepsCalls name :=
  KeepsCalls.bind (t := perform (.relay Filter.all))
    ⟨by rintro _ _ _ ⟨⟩, by rintro _ ⟨⟩, fun _ => trivial⟩ fun answer => keepsCalls_check answer.2

end Task

namespace Builtin

open Pipework.Task

variable {name : String}

theorem keepsCalls_react (reaction : Reaction) (got : Option Bytes) : (react reaction got).KeepsCalls name := by
  have hTail : (write .out reaction.text >>= fun _ => check reaction.fault).KeepsCalls name :=
    (keepsCalls_write .out reaction.text).bind fun _ => keepsCalls_check reaction.fault
  unfold react
  split
  · match got with
    | some [] => exact hTail
    | some (b :: data) => exact (keepsCalls_write .out (b :: data)).bind fun _ => hTail
    | none => exact keepsCalls_relay.bind fun _ => hTail
  · exact hTail

theorem keepsCalls_respond (r : Response) (capture : Option Pattern) : (respond name r capture).KeepsCalls name := by
  have hKeep : (keep name r capture).KeepsCalls name := by
    cases capture with
    | none => exact keepsCalls_pure ()
    | some pattern => exact ⟨by rintro _ _ _ ⟨⟩, by rintro _ ⟨⟩ m; rfl, fun _ => trivial⟩
  rw [respond_eq]
  refine KeepsCalls.bind ?_ fun _ => (keepsCalls_check r.fault).bind fun _ => hKeep
  split
  · exact keepsCalls_pure ()
  · exact keepsCalls_write .out r.text

variable (name) in
/-- A call that has read `got` has that recorded, and then goes on with what the mock has for it. -/
theorem enters_ask (p : Proc) (got : Option Bytes) :
    Program.Enters name (some ⟨p.args, p.env, got.filter (· ≠ [])⟩) (ask name p got) := by
  refine ⟨_, rfl, fun answer => ?_⟩
  cases answer with
  | nothing => exact keepsCalls_pure ()
  | handler reaction => exact keepsCalls_react reaction got
  | response r capture => exact keepsCalls_respond r capture

theorem enters_mock {p : Proc} (hInput : p.hostInput = true) (input : Bytes × Option Fault) :
    Program.Enters name (p.recorded? input) (mock name p) := by
  unfold Proc.recorded?
  rw [mock_eq, hInput]
  exact enters_ask name p none

variable (name) in
/-- A call whose input is not that of the host reads all of it before it is recorded. -/
theorem mock_of_input {p : Proc} (hInput : p.hostInput = false) :
    ∃ next : Bytes × Option Fault → Program (Except Fault Unit),
      mock name p = Program.act (.read .all) next ∧ ∀ input, (next input).Enters name (p.recorded? input) := by
  rw [mock_eq, hInput]
  refine ⟨_, rfl, fun input => ?_⟩
  unfold Proc.recorded?
  rw [hInput]
  obtain ⟨data, _ | fault⟩ := input
  · have hAsk := enters_ask name p (some data)
    rw [Mock.filter_some_ne_nil] at hAsk
    exact hAsk
  · trivial

end Builtin

namespace Stage

variable {st : Stage} (hProcess : st.isProcess = false) {name : String} {nested : Nested} {desk : Desk} {line : Line}

include hProcess

theorem perform_adds {action : Action} (hInvoke : ∀ file number script, action ≠ .invoke file number script)
    (hAsk : ∀ ask, action = .consult name ask → ∀ m, (ask m).1.calls = m.calls) :
    (st.perform nested desk line action).Adds (Line.calls name) (fun x own => x.2.isSome = true ∧ own = []) line := by
  by_cases hName : ∃ ask, action = .consult name ask
  · obtain ⟨ask, rfl⟩ := hName
    refine ⟨[], ?_, rfl, rfl⟩
    rw [List.append_nil, Line.calls, Line.mock, World.mock_setMock]
    exact hAsk ask rfl (line.mock name)
  · have hOther : ∀ ask, action ≠ .consult name ask := fun ask hSame => hName ⟨ask, hSame⟩
    refine Reply.Answers.adds ?_
    cases action with
    | flood data => exact flood_answers hProcess name data desk line
    | pause =>
      unfold perform
      split
      · exact ⟨rfl, rfl⟩
      · exact ⟨rfl, fun signal line => Reply.answers_afterWait hProcess signal desk line () () rfl⟩
    | invoke file number script => exact (hInvoke file number script rfl).elim
    | _ => exact perform_answers hProcess name nested desk line rfl hOther

theorem run_keepsCalls {t : Program (Except Fault Unit)} (ht : t.KeepsCalls name) :
    (st.run nested t desk line).Adds (Line.calls name) (fun _ own => own = []) line := by
  induction t generalizing desk line with
  | done ending => exact ⟨[], by rw [List.append_nil, Line.calls, mock_close, Line.calls], rfl⟩
  | act action next ih =>
    rw [run]
    refine Run.Adds.bind (perform_adds hProcess ht.1 ht.2.1) ?_
    rintro ⟨desk', answer⟩ own last ⟨hAnswer, rfl⟩
    obtain ⟨answer, rfl⟩ := Option.isSome_iff_exists.mp hAnswer
    exact ih answer (ht.2.2 answer)

theorem run_enters {t : Program (Except Fault Unit)} {recorded? : Option Call} (ht : t.Enters name recorded?) :
    (st.run nested t desk line).Adds (Line.calls name) (fun _ own => own = recorded?.toList) line := by
  cases recorded? with
  | none => exact run_keepsCalls hProcess ht
  | some call =>
    obtain ⟨next, rfl, hNext⟩ := ht
    have hPerform : st.perform nested desk line (.consult name (·.receive call)) =
        .done (desk, some ((line.mock name).receive call).2)
          { line with world := line.world.setMock name ((line.mock name).receive call).1 } := rfl
    have hCalls : Line.calls name { line with world := line.world.setMock name ((line.mock name).receive call).1 } =
        line.calls name ++ [call] := by
      rw [Line.calls, Line.mock, World.mock_setMock]
      exact Mock.calls_receive (line.mock name) call
    rw [run_answered hPerform]
    refine Run.Adds.after hCalls ((run_keepsCalls hProcess (hNext _)).imp ?_)
    rintro _ own rfl
    rfl

/-- Reading all of the input of the stage comes to `input`, whatever others do meanwhile. -/
def Reads (st : Stage) (desk : Desk) (line : Line) (input : Bytes × Option Fault) : Prop :=
  ∃ desk' last, (st.read .all desk line).Comes (fun _ => ()) (desk', some input) last

/-- A stage that calls a mock has the call recorded with what it has read, unless its input breaks off. -/
theorem run_mock_adds (p : Proc) :
    (st.run nested (Builtin.mock name p) desk line).Adds (Line.calls name)
      (fun _ own => ∃ input, (p.hostInput = false → st.Reads desk line input) ∧ own = (p.recorded? input).toList)
      line := by
  cases hInput : p.hostInput with
  | true =>
    refine (run_enters hProcess (Builtin.enters_mock hInput ([], none))).imp fun _ own hOwn => ?_
    exact ⟨([], none), nofun, hOwn⟩
  | false =>
    obtain ⟨next, hMock, hNext⟩ := Builtin.mock_of_input name hInput
    have hAdds : (st.read .all desk line).Adds (Line.calls name) (fun x own => x.2.isSome = true ∧ own = []) line :=
      (read_answers hProcess name .all desk line).adds
    rw [hMock, run]
    refine Run.Adds.bind hAdds.comes ?_
    rintro ⟨desk', answer⟩ own mid ⟨⟨hAnswer, rfl⟩, last, hComes⟩
    obtain ⟨input, rfl⟩ := Option.isSome_iff_exists.mp hAnswer
    exact (run_enters hProcess (hNext input)).imp fun _ own hOwn => ⟨input, fun _ => ⟨desk', last, hComes⟩, hOwn⟩

theorem run_feeding_adds {p : Proc} (hInput : p.hostInput = false) (feed : Feed) :
    (st.run nested (Program.feeding (Builtin.mock name p) feed) desk line).Adds (Line.calls name)
      (fun _ own => own = (p.recorded? ((feed.take? .all).getD feed.empty).1).toList) line := by
  obtain ⟨next, hMock, hNext⟩ := Builtin.mock_of_input name hInput
  have hFeeding : Program.feeding (Builtin.mock name p) feed =
      (next ((feed.take? .all).getD feed.empty).1).feeding ((feed.take? .all).getD feed.empty).2 := by
    rw [hMock, Program.feeding]
    cases feed.take? .all <;> rfl
  rw [hFeeding]
  exact run_enters hProcess ((hNext _).feeding _)

end Stage

namespace Mock

/-- Whatever happens to a mock and however its calls end, it records each call in the order of the calls, unless the
input of the call breaks off: its arguments, the environment set for it and what it read, on which a handler then works.
A stage that calls the mock, on its own input or on a feed, has this one call recorded and nothing else, whatever is
done by the others that run with it. -/
theorem records_calls (name : String) (m : MockCommand) (events : List Event) :
    (events.foldl (after name) m).calls = m.calls ++ events.filterMap Event.recorded? ∧
    (∀ (p : Proc) (s : Surroundings) (data : Bytes) (pattern : Pattern) (reaction : Reaction),
      p.hostInput = false → s [] (.read .all) = (data, none) →
      (events.foldl (after name) m).Serves p.args pattern (.other reaction) →
      (call name s (events.foldl (after name) m) p).1 =
        ((Builtin.react reaction (some data)).play name s [⟨.read .all, (data, none)⟩] .empty).1) ∧
    ∀ (st : Stage) (nested : Nested) (p : Proc) (desk : Desk) (line : Line), st.isProcess = false →
      (st.run nested (Builtin.mock name p) desk line).Adds (Line.calls name)
        (fun _ own =>
          ∃ input, (p.hostInput = false → st.Reads desk line input) ∧ own = (p.recorded? input).toList) line ∧
      ∀ feed : Feed, p.hostInput = false →
        (st.run nested (Program.feeding (Builtin.mock name p) feed) desk line).Adds (Line.calls name)
          (fun _ own => own = (p.recorded? ((feed.take? .all).getD feed.empty).1).toList) line := by
  refine ⟨calls_foldl m events, ?_, ?_⟩
  · intro p s data pattern reaction hInput hRead hServes
    exact call_handled hInput hRead hServes
  · intro st nested p desk line hProcess
    exact ⟨st.run_mock_adds hProcess p, fun feed hInput => st.run_feeding_adds hProcess hInput feed⟩

def down : Reaction := ⟨true, [7], some (.plain "down")⟩

def varied : Proc := ⟨["m"], [("K", "v")], "", false⟩

/-- After a failed call with the input 1, another one has the input 2; a stage gives the mock the input 3. -/
theorem records_calls_failing :
    let m : MockCommand := [.handle down [], .call varied (.giving [1])].foldl (after "m") .empty
    let line : Line := Invoker.bench.openLine ⟨[⟨["m"], [], []⟩], false, "", 1⟩ ⟨.bench [], .opened, false, false⟩
    let start : Launch :=
      Invoker.bench.builtinLaunch .host 0 true ⟨["m"], [], []⟩ line (Builtin.concurrent (Builtin.mock "m"))
    m.calls = [⟨["m"], [("K", "v")], some [1]⟩] ∧
    (call "m" (.giving [2]) m varied).1 =
      ([⟨.read .all, ([2], none)⟩, ⟨.write .out [2], none⟩, ⟨.write .out [7], none⟩], .error (.plain "down")) ∧
    (start.stage.run (nestedRun [] 0) (Program.feeding (Builtin.mock "m" varied) (.ofBytes [3])) start.desk line).Adds
      (Line.calls "m") (fun _ own => own = [⟨["m"], [("K", "v")], some [3]⟩]) line := by
  intro m line start
  obtain ⟨hCalls, hHandled, hStages⟩ := records_calls "m" .empty [.handle down [], .call varied (.giving [1])]
  have hPatterns : m.patterns = [[]] := rfl
  have hServes : m.Serves varied.args [] (.other down) := by
    refine ⟨rfl, List.nil_prefix, ?_⟩
    rw [hPatterns]
    simp
  refine ⟨hCalls, hHandled varied (.giving [2]) [2] [] down rfl rfl hServes, ?_⟩
  exact (hStages start.stage (nestedRun [] 0) varied start.desk line rfl).2 (.ofBytes [3]) rfl

-- A call whose input breaks off is not recorded.
example (fault : Fault) : varied.recorded? ([112], some fault) = none := rfl

end Mock

end Pipework
