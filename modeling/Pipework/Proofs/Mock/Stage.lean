import Pipework.Proofs.Mock.Call
import Pipework.Proofs.Schedule.Basic
import Pipework.Proofs.Splice.Builtins

/-!
# Stages that run a mock

What is said of the calls of a mock holds of the stages that run its builtin. As long as others leave the mock alone
while such a stage waits, the stage changes the mock as a call does, and ends as the call does.
-/

namespace Pipework

/-- The run comes to the result `a`, if others leave the part `f` of the state alone whenever it waits. -/
inductive Run.Comes {σ α γ : Type} (f : σ → γ) : Run σ α → (a : α) → (last : σ) → Prop
  | done {a : α} {state : σ} : Comes f (.done a state) a state
  | wait {why : Wait} {signal : Signal} {state state' last : σ} {resume : Signal → σ → Run σ α} {a : α}
      (hSame : f state' = f state) (hRest : Comes f (resume signal state') a last) :
    Comes f (.wait why state resume) a last

theorem Run.Comes.bind_inv {σ α β γ : Type} {f : σ → γ} {r : Run σ α} {g : α → σ → Run σ β} {b : β} {last : σ}
    (h : (r.bind g).Comes f b last) : ∃ a mid, r.Comes f a mid ∧ (g a mid).Comes f b last := by
  induction r with
  | done a state => exact ⟨a, state, .done, h⟩
  | wait why state resume ih =>
    cases h with
    | wait hSame hRest =>
      obtain ⟨a, mid, hFirst, hSecond⟩ := ih _ _ hRest
      exact ⟨a, mid, .wait hSame hFirst, hSecond⟩

def Line.mock (name : String) (l : Line) : MockCommand := l.world.mock name

/-- There is an answer in the end, and the mock called `name` is `m` at the first wait or at the end, and from there on
what it was when the stage was resumed. -/
def Reply.Answers {α : Type} (name : String) (m : MockCommand) : Reply α → Prop
  | .done (_, answer) line => answer.isSome = true ∧ line.mock name = m
  | .wait _ line resume => line.mock name = m ∧ ∀ signal line, Reply.Answers name (line.mock name) (resume signal line)

namespace Reply

variable {α β : Type} {name : String} {m : MockCommand}

theorem Answers.bind {r : Reply α} {f : Desk × Option α → Line → Reply β} (h : r.Answers name m)
    (hf : ∀ desk answer line, (f (desk, some answer) line).Answers name (line.mock name)) :
    Reply.Answers name m (Run.bind r f) := by
  induction r generalizing m with
  | done result line =>
    obtain ⟨desk, answer⟩ := result
    obtain ⟨hAnswer, rfl⟩ := h
    obtain ⟨answer, rfl⟩ := Option.isSome_iff_exists.mp hAnswer
    exact hf desk answer line
  | wait why line resume ih => exact ⟨h.1, fun signal line => ih signal line (h.2 signal line)⟩

theorem Answers.map {r : Reply α} (h : r.Answers name m) (f : α → β) : (r.map f).Answers name m :=
  h.bind fun _ _ _ => ⟨rfl, rfl⟩

theorem Answers.comes {r : Reply α} (h : r.Answers name m) {x : Desk × Option α} {last : Line}
    (hComes : r.Comes (Line.mock name) x last) : x.2.isSome = true ∧ last.mock name = m := by
  induction hComes generalizing m with
  | done => exact h
  | wait hSame hRest ih =>
    obtain ⟨hMock, hResume⟩ := h
    rw [← hMock, ← hSame]
    exact ih (hResume _ _)

theorem answers_afterWait {st : Stage} (hProcess : st.isProcess = false) (signal : Signal) (desk : Desk) (line : Line)
    (answer stopped : α) (h : line.mock name = m) :
    Reply.Answers name m (.done (desk, st.afterWait signal answer stopped) line) := by
  refine ⟨?_, h⟩
  cases signal with
  | ready => rfl
  | stop taken => rw [Stage.afterWait, hProcess]; rfl

end Reply

theorem World.mock_serve (name : String) : World.Aloof (World.mock · name) := by
  intro w storage request
  obtain ⟨memory, tree, hServe⟩ := w.serve_eq storage request
  rw [hServe]
  rfl

theorem World.mock_setMock (w : World) (name : String) (m : MockCommand) : (w.setMock name m).mock name = m := by
  rw [mock, setMock, Mock.lookup_assign, if_pos rfl]
  rfl

namespace Stage

variable {st : Stage} (hProcess : st.isProcess = false) (name : String)

theorem mock_close (fault : Option Fault) (desk : Desk) (line : Line) :
    (st.close fault desk line).mock name = line.mock name := by
  rw [Line.mock, close, World.releaseAll_eq]
  exact (World.mock_serve name).closeAll line.world desk.handles

include hProcess

theorem deliver_answers (sink : Sink) (data : Bytes) (desk : Desk) (line : Line) :
    (st.deliver sink data desk line).Answers name (line.mock name) := by
  unfold deliver
  split
  · exact ⟨rfl, rfl⟩
  · exact ⟨rfl, rfl⟩
  · split
    · exact ⟨rfl, rfl⟩
    · exact ⟨rfl, World.mock_serve name line.world _ _⟩
  · split
    · split
      · exact ⟨rfl, rfl⟩
      · exact ⟨rfl, rfl⟩
    · split
      · exact ⟨rfl, rfl⟩
      · exact ⟨rfl, rfl⟩
      · split
        · exact ⟨rfl, rfl⟩
        · split
          · exact ⟨rfl, rfl⟩
          · exact ⟨rfl, fun signal line => Reply.answers_afterWait hProcess signal desk line _ _ rfl⟩

theorem flood_answers (data : Bytes) (desk : Desk) (line : Line) :
    (st.flood data desk line).Answers name (line.mock name) := by
  have hWait (answer stopped : Option Fault) (signal : Signal) (line : Line) :=
    Reply.answers_afterWait (m := line.mock name) hProcess signal desk line answer stopped rfl
  unfold flood
  split
  · exact ⟨rfl, hWait _ _⟩
  · split
    · exact ⟨rfl, hWait _ _⟩
    · split
      · split
        · exact ⟨rfl, rfl⟩
        · exact ⟨rfl, hWait _ _⟩
      · exact ⟨rfl, hWait _ _⟩

theorem read_answers (amount : Amount) (desk : Desk) (line : Line) :
    (st.read amount desk line).Answers name (line.mock name) := by
  unfold read
  split
  · exact ⟨rfl, rfl⟩
  · exact ⟨rfl, rfl⟩
  · dsimp only
    split
    · exact ⟨rfl, rfl⟩
    · exact ⟨rfl, fun signal line => Reply.answers_afterWait hProcess signal desk _ _ _ rfl⟩

theorem pour_answers (data : Bytes) (desk : Desk) (line : Line) :
    (st.pour data desk line).Answers name (line.mock name) := by
  unfold pour
  split
  · exact ⟨rfl, rfl⟩
  · exact deliver_answers hProcess name st.out data desk line

theorem scan_answers (desk : Desk) (line : Line) : (st.scan desk line).Answers name (line.mock name) := by
  unfold scan
  split
  · exact ⟨rfl, rfl⟩
  · exact read_answers hProcess name .all desk line

theorem relay_answers (filter : Filter) (desk : Desk) (line : Line) :
    (st.relay filter desk line).Answers name (line.mock name) := by
  unfold relay
  dsimp only
  split
  · refine (pour_answers hProcess name _ desk line).bind ?_
    rintro desk ⟨taken, _ | fault⟩ line
    · exact (flood_answers hProcess name _ desk line).map _
    · exact ⟨rfl, rfl⟩
  · refine (scan_answers hProcess name desk line).bind ?_
    rintro desk ⟨data, fault⟩ line
    refine (pour_answers hProcess name _ desk line).bind ?_
    rintro desk ⟨taken, _ | refusal⟩ line
    all_goals
      refine ⟨rfl, ?_⟩
      dsimp only
      split <;> rfl

theorem perform_answers (nested : Nested) (desk : Desk) (line : Line) {action : Action} (hLasts : action.lasts = false)
    (hOther : ∀ ask, action ≠ .consult name ask) :
    (st.perform nested desk line action).Answers name (line.mock name) := by
  cases action with
  | write channel data =>
    cases channel with
    | out => exact (deliver_answers hProcess name st.out data desk line).map _
    | err => exact (deliver_answers hProcess name st.err data desk line).map _
  | read amount => exact read_answers hProcess name amount desk line
  | relay filter => exact relay_answers hProcess name filter desk line
  | files storage request => exact ⟨rfl, World.mock_serve name line.world _ _⟩
  | consult other ask =>
    have hName : name ≠ other := fun hSame => hOther ask (hSame ▸ rfl)
    refine ⟨rfl, congrArg (Option.getD · Mock.empty) ?_⟩
    exact (Mock.lookup_assign other name _ line.world.mocks).trans (if_neg hName)
  | lookup key => exact ⟨rfl, rfl⟩
  | assign key value => exact ⟨rfl, rfl⟩
  | workDirectory => exact ⟨rfl, rfl⟩
  | inquire side => exact ⟨rfl, rfl⟩
  | flood data => cases hLasts
  | pause => cases hLasts
  | invoke file line script => cases hLasts

end Stage

section Surroundings

open Classical in
/-- Surroundings that give `answer` to `action` after `past`, and go on like `s`. -/
noncomputable def Surroundings.answering (s : Surroundings) (past : List Deed) (action : Action)
    (answer : action.Answer) : Surroundings := fun deeds other =>
  if h : deeds.length = past.length ∧ other = action then h.2 ▸ answer else s deeds other

variable {s : Surroundings} {past : List Deed} {action : Action} {answer : action.Answer}

theorem Surroundings.answering_self : s.answering past action answer past action = answer :=
  dif_pos ⟨rfl, rfl⟩

theorem Surroundings.answering_of_lt {deeds : List Deed} (h : past.length < deeds.length) (other : Action) :
    s.answering past action answer deeds other = s deeds other :=
  dif_neg fun hSame => h.ne hSame.1.symm

theorem Program.play_congr {α : Type} (name : String) {s s' : Surroundings} {t : Program α} {past : List Deed}
    (h : ∀ deeds action, past.length ≤ deeds.length → s deeds action = s' deeds action) (m : MockCommand) :
    t.play name s past m = t.play name s' past m := by
  induction t generalizing past m with
  | done a => rfl
  | act action next ih =>
    have hNext (answer : action.Answer) (m : MockCommand) :
        (next answer).play name s (past ++ [⟨action, answer⟩]) m =
          (next answer).play name s' (past ++ [⟨action, answer⟩]) m := by
      refine ih answer (fun deeds other hLength => h deeds other ?_) m
      rw [List.length_append] at hLength
      omega
    cases action with
    | consult other ask =>
      rw [play, play, h past _ le_rfl]
      split
      · exact ih _ h _
      · exact hNext _ _
    | _ =>
      simp only [play, h past _ le_rfl]
      exact hNext _ _

end Surroundings

section Stages

variable {st : Stage} {nested : Nested}

theorem Program.play_act {α : Type} {name : String} {s : Surroundings} {action : Action}
    {next : action.Answer → Program α} (hOther : ∀ ask, action ≠ .consult name ask) (past : List Deed)
    (m : MockCommand) :
    (Program.act action next).play name s past m =
      (next (s past action)).play name s (past ++ [⟨action, s past action⟩]) m := by
  cases action with
  | consult other ask => exact if_neg fun hSame => hOther ask (congrArg (Action.consult · ask) hSame)
  | _ => rfl

/-- A stage does to the mock what its program does in some surroundings, and ends as that does. -/
theorem Stage.run_plays (hProcess : st.isProcess = false) (name : String) {t : Program (Except Fault Unit)}
    (ht : t.IsPlain) {desk : Desk} {line last : Line} {result : Unit}
    (h : (st.run nested t desk line).Comes (Line.mock name) result last) (past : List Deed) :
    ∃ s desk' line', last = st.close (endFault (t.play name s past (line.mock name)).1.2) desk' line' ∧
      line'.mock name = (t.play name s past (line.mock name)).2 := by
  -- The surroundings are put together of the answers that the stage comes by, the last ones first.
  induction t generalizing desk line past with
  | done ending =>
    cases h
    refine ⟨.willing, desk, line, ?_, rfl⟩
    cases ending <;> rfl
  | act action next ih =>
    rw [run] at h
    obtain ⟨⟨desk', answer⟩, mid, hReply, hRest⟩ := h.bind_inv
    by_cases hName : ∃ ask, action = .consult name ask
    · obtain ⟨ask, rfl⟩ := hName
      have hMock : Line.mock name { line with world := line.world.setMock name (ask (line.mock name)).1 } =
          (ask (line.mock name)).1 := World.mock_setMock _ _ _
      cases hReply
      obtain ⟨s, desk', line', hLast, hAfter⟩ := ih _ (ht.2 _) hRest past
      have hPlay : (Program.act (.consult name ask) next).play name s past (line.mock name) =
          (next (ask (line.mock name)).2).play name s past
            (Line.mock name { line with world := line.world.setMock name (ask (line.mock name)).1 }) := by
        rw [hMock]
        exact if_pos rfl
      refine ⟨s, desk', line', ?_, ?_⟩
      · rw [hPlay]
        exact hLast
      · rw [hPlay]
        exact hAfter
    · have hOther : ∀ ask, action ≠ .consult name ask := fun ask hSame => hName ⟨ask, hSame⟩
      obtain ⟨hAnswer, hMock⟩ :=
        (perform_answers hProcess name nested desk line (Action.lasts_of_isPlain ht.1) hOther).comes hReply
      obtain ⟨answer, rfl⟩ := Option.isSome_iff_exists.mp hAnswer
      obtain ⟨s, desk', line', hLast, hAfter⟩ := ih answer (ht.2 answer) hRest (past ++ [⟨action, answer⟩])
      have hPlay : (Program.act action next).play name (s.answering past action answer) past (line.mock name) =
          (next answer).play name s (past ++ [⟨action, answer⟩]) (mid.mock name) := by
        rw [Program.play_act hOther, Surroundings.answering_self, hMock]
        refine Program.play_congr name (fun deeds other hLength => Surroundings.answering_of_lt ?_ other) _
        rw [List.length_append] at hLength
        exact hLength
      refine ⟨s.answering past action answer, desk', line', ?_, ?_⟩
      · rw [hPlay]
        exact hLast
      · rw [hPlay]
        exact hAfter

end Stages

namespace Builtin

open Pipework.Task

theorem plain_react (reaction : Reaction) (got : Option Bytes) : (react reaction got).IsPlain := by
  have hTail : (write .out reaction.text >>= fun _ => check reaction.fault).IsPlain :=
    (plain_write .out reaction.text).bind fun _ => plain_check reaction.fault
  unfold react
  split
  · match got with
    | some [] => exact hTail
    | some (b :: data) => exact (plain_write .out (b :: data)).bind fun _ => hTail
    | none => exact plain_relay.bind fun _ => hTail
  · exact hTail

theorem plain_respond (name : String) (r : Response) (capture : Option Pattern) :
    (respond name r capture).IsPlain := by
  have hKeep : (keep name r capture).IsPlain := by
    cases capture with
    | none => exact plain_pure ()
    | some pattern => exact (plain_perform rfl).bind fun _ => plain_pure ()
  rw [respond_eq]
  refine IsPlain.bind ?_ fun _ => (plain_check r.fault).bind fun _ => hKeep
  split
  · exact plain_pure ()
  · exact plain_write .out r.text

theorem plain_mock (name : String) (p : Proc) : (mock name p).IsPlain := by
  have hAsk (got : Option Bytes) : (ask name p got).IsPlain := by
    refine (plain_perform rfl).bind fun answer => ?_
    cases answer with
    | nothing => exact plain_pure ()
    | handler reaction => exact plain_react reaction got
    | response r capture => exact plain_respond name r capture
  rw [mock_eq]
  split
  · exact hAsk none
  · exact plain_readAll.bind fun data => hAsk (some data)

end Builtin

/-- A stage that runs the builtin of a mock calls the mock, and fails if the call does. -/
theorem Stage.run_mock {st : Stage} (hProcess : st.isProcess = false) {nested : Nested} {name : String} {p : Proc}
    {desk : Desk} {line last : Line} {result : Unit}
    (h : (st.run nested (Builtin.mock name p) desk line).Comes (Line.mock name) result last) :
    ∃ s desk' line', last = st.close (endFault (Mock.call name s (line.mock name) p).1.2) desk' line' ∧
      last.mock name = (Mock.call name s (line.mock name) p).2 := by
  obtain ⟨s, desk', line', hLast, hAfter⟩ := st.run_plays hProcess name (Builtin.plain_mock name p) h []
  refine ⟨s, desk', line', hLast, Eq.trans ?_ hAfter⟩
  rw [hLast, mock_close]

end Pipework
