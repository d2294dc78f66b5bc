import Mathlib.Data.List.Basic
import Pipework.Builtin.Text
import Pipework.Proofs.Files.Tree
import Pipework.Proofs.Schedule.Basic

/-!
# Stages that write to a file

What a stage says is what it writes to its output. A stage whose output leads to a file gathers what it says in
the writer of that file. A `tee` gives its file what it passes on. Either way the file holds what the stage said
when the stage has ended, and not before. Errors that are led to the file of the output count as output.
-/

namespace Pipework

namespace Handle

@[simp] theorem written_nil (h : Handle) : h.written [] = h := by simp [written]

@[simp] theorem written_written (h : Handle) (data more : Bytes) :
    (h.written data).written more = h.written (data ++ more) := by
  simp [written]

end Handle

def Sink.isFile : Sink → Bool
  | .file _ => true
  | _ => false

/-- The open files of a stage when `data` has been written to the sink. -/
def Sink.gathered (handles : List Handle) (data : Bytes) : Sink → List Handle
  | .file i => handles.modify i (·.written data)
  | _ => handles

namespace Sink

theorem gathered_of_not_file {sink : Sink} (h : sink.isFile = false) (handles : List Handle) (data : Bytes) :
    sink.gathered handles data = handles := by
  cases sink with
  | file i => cases h
  | _ => rfl

@[simp] theorem gathered_nil (sink : Sink) (handles : List Handle) : sink.gathered handles [] = handles := by
  cases sink with
  | file i =>
    have hSame : (fun h : Handle => h.written []) = id := funext Handle.written_nil
    exact (congrArg (handles.modify i) hSame).trans (List.modify_id i handles)
  | _ => rfl

@[simp] theorem gathered_gathered (sink : Sink) (handles : List Handle) (data more : Bytes) :
    sink.gathered (sink.gathered handles data) more = sink.gathered handles (data ++ more) := by
  cases sink with
  | file i => simp [gathered, List.modify_modify_eq, Function.comp_def]
  | _ => rfl

end Sink

namespace Run

variable {σ α β : Type}

/-- However the run is resumed, it ends with a result in `Q`. -/
def Ends (Q : α → Prop) : Run σ α → Prop
  | .done result _ => Q result
  | .wait _ _ resume => ∀ signal state, (resume signal state).Ends Q

theorem Ends.bind {Q : α → Prop} {Q' : β → Prop} {r : Run σ α} {f : α → σ → Run σ β} (h : r.Ends Q)
    (hf : ∀ a state, Q a → (f a state).Ends Q') : (r.bind f).Ends Q' := by
  induction r with
  | done result state => exact hf result state h
  | wait why state resume ih => exact fun signal state => ih signal state (h signal state)

theorem Ends.imp {Q Q' : α → Prop} {r : Run σ α} (h : r.Ends Q) (hQ : ∀ a, Q a → Q' a) : r.Ends Q' := by
  induction r with
  | done result state => exact hQ result h
  | wait why state resume ih => exact fun signal state => ih signal state (h signal state)

end Run

namespace Stage

/-- What the stage has said by an action that was answered. -/
def said (st : Stage) (action : Action) (answer : action.Answer) : Bytes :=
  match action, answer with
  | .write .out data, none => data
  | .write .err data, none => if st.err.isFile then data else []
  | .relay _, answer => answer.1
  | _, _ => []

def saidIn (st : Stage) {action : Action} : Reply action.Answer → Bytes
  | .done (_, some answer) _ => st.said action answer
  | _ => []

/-- If the errors lead to a file, it is that of the output. -/
def Joint (st : Stage) : Prop := st.err.isFile = true → st.err = st.out

variable (st : Stage) (desk : Desk) (line : Line)

theorem deliver_gathers (sink : Sink) (data : Bytes) :
    (st.deliver sink data desk line).Ends fun r =>
      r.1.handles = sink.gathered desk.handles data ∧ (sink.isFile = true → r.2 = some (.full data)) := by
  unfold deliver
  split
  · exact ⟨rfl, fun h => by cases h⟩
  · exact ⟨rfl, fun h => by cases h⟩
  · next i =>
    split
    · next hNone =>
      refine ⟨?_, fun _ => rfl⟩
      rw [List.getElem?_eq_none_iff] at hNone
      exact (List.modify_eq_self hNone).symm
    · next h hSome =>
      refine ⟨?_, fun _ => rfl⟩
      simp [Sink.gathered, List.modify_eq_set_getElem?, hSome]
  · split
    · split
      · exact ⟨rfl, fun h => by cases h⟩
      · exact ⟨rfl, fun h => by cases h⟩
    · split
      · exact ⟨rfl, fun h => by cases h⟩
      · exact ⟨rfl, fun h => by cases h⟩
      · split
        · exact ⟨rfl, fun h => by cases h⟩
        · split
          · exact ⟨rfl, fun h => by cases h⟩
          · exact fun signal line => ⟨rfl, fun h => by cases h⟩

theorem flood_keeps (data : Bytes) :
    (st.flood data desk line).Ends fun r => r.1.handles = desk.handles := by
  unfold flood
  split
  · exact fun _ _ => rfl
  · split
    · exact fun _ _ => rfl
    · split
      · split
        · rfl
        · exact fun _ _ => rfl
      · exact fun _ _ => rfl

theorem read_keeps (amount : Amount) :
    (st.read amount desk line).Ends fun r => r.1.handles = desk.handles := by
  unfold read
  split
  · rfl
  · rfl
  · dsimp only
    split
    · rfl
    · exact fun _ _ => rfl

theorem scan_keeps : (st.scan desk line).Ends fun r => r.1.handles = desk.handles := by
  unfold scan
  split
  · rfl
  · exact st.read_keeps desk line .all

theorem pour_gathers (data : Bytes) :
    (st.pour data desk line).Ends fun r =>
      r.1.handles = st.out.gathered desk.handles data ∧ (st.out.isFile = true → r.2 = some (.full data)) := by
  unfold pour
  split
  · next hEmpty =>
    subst hEmpty
    exact ⟨(st.out.gathered_nil desk.handles).symm, fun _ => rfl⟩
  · exact st.deliver_gathers desk line st.out data

theorem relay_gathers (filter : Filter) (hFinite : (st.inputFeed desk line).cycle = []) :
    (st.relay filter desk line).Ends fun r =>
      ∀ answer, r.2 = some answer → r.1.handles = st.out.gathered desk.handles answer.1 := by
  unfold relay
  dsimp only
  rw [if_neg (by simp [hFinite])]
  refine (st.scan_keeps desk line).bind ?_
  rintro ⟨desk₁, answer⟩ line₁ hHandles
  cases answer with
  | none =>
    rintro answer ⟨⟩
  | some input =>
    obtain ⟨data, fault⟩ := input
    refine (st.pour_gathers desk₁ line₁ (filter.apply none data)).bind ?_
    rintro ⟨desk₂, delivery⟩ line₂ ⟨hGathered, hFull⟩
    rw [hHandles] at hGathered
    intro answer hAnswer
    -- A file takes all of it; what any other sink takes leaves the open files alone.
    cases hFile : st.out.isFile with
    | true =>
      cases hFull hFile
      cases hAnswer
      exact hGathered
    | false =>
      rw [st.out.gathered_of_not_file hFile] at hGathered ⊢
      exact hGathered

theorem perform_gathers (nested : Nested) (hJoint : st.Joint) {action : Action}
    (hInvokes : action.invokes = false)
    (hFinite : ∀ filter, action = .relay filter → (st.inputFeed desk line).cycle = []) :
    (st.perform nested desk line action).Ends fun r =>
      ∀ answer, r.2 = some answer → r.1.handles = st.out.gathered desk.handles (st.said action answer) := by
  -- All actions but writes and copies say nothing and keep the open files.
  have hSilent : ∀ {α : Type} {r : Reply α}, (r.Ends fun r => r.1.handles = desk.handles) →
      r.Ends fun r => ∀ answer : α, r.2 = some answer → r.1.handles = st.out.gathered desk.handles [] := by
    intro α r h
    refine h.imp ?_
    intro result hSame answer _
    rw [hSame, Sink.gathered_nil]
  cases action with
  | write channel data =>
    cases channel with
    | out =>
      refine (st.deliver_gathers desk line st.out data).bind ?_
      rintro ⟨desk', delivery⟩ line' ⟨hGathered, hFull⟩ answer hAnswer
      cases hFile : st.out.isFile with
      | true =>
        cases hFull hFile
        cases hAnswer
        exact hGathered
      | false =>
        rw [st.out.gathered_of_not_file hFile] at hGathered ⊢
        exact hGathered
    | err =>
      refine (st.deliver_gathers desk line st.err data).bind ?_
      rintro ⟨desk', delivery⟩ line' ⟨hGathered, hFull⟩ answer hAnswer
      cases hFile : st.err.isFile with
      | true =>
        cases hFull hFile
        cases hAnswer
        have hSaid : st.said (.write .err data) none = data := if_pos hFile
        rw [hJoint hFile] at hGathered
        exact hGathered.trans (congrArg (st.out.gathered desk.handles) hSaid.symm)
      | false =>
        have hSaid : st.said (.write .err data) answer = [] := by cases answer <;> simp [said, hFile]
        rw [st.err.gathered_of_not_file hFile] at hGathered
        rw [hSaid, Sink.gathered_nil]
        exact hGathered
  | flood data => exact hSilent (st.flood_keeps desk line data)
  | read amount => exact hSilent (st.read_keeps desk line amount)
  | relay filter => exact st.relay_gathers desk line filter (hFinite filter rfl)
  | pause =>
    refine hSilent ?_
    unfold perform
    split
    · rfl
    · exact fun _ _ => rfl
  | invoke file number script => cases hInvokes
  | _ => exact fun answer _ => (st.out.gathered_nil desk.handles).symm

end Stage

/-- One turn of the stage `st` after which it goes on, with what it says. The input that it copies comes to an end,
and the scripts that it runs leave the files in memory alone. -/
inductive Tells (C : Calls) (mayCall : Prop) (st : Stage) : Work C.State × Line → Bytes → Work C.State × Line → Prop
  | act {action : Action} {next : action.Answer → Program (Except Fault Unit)} {desk : Desk} {line line' : Line}
      {work : Work C.State} (nested : Nested) (hInvokes : action.invokes = false)
      (hFinite : ∀ filter, action = .relay filter → (st.inputFeed desk line).cycle = [])
      (hOn : st.after next (st.perform nested desk line action) = (.on work, line')) :
    Tells C mayCall st (.ready (.act action next) desk, line) (st.saidIn (st.perform nested desk line action))
      (work, line')
  | resume {action : Action} {resume : Signal → Line → Reply action.Answer}
      {next : action.Answer → Program (Except Fault Unit)} {line line' : Line} {work : Work C.State} (signal : Signal)
      (hStop : signal.isStop = true → line.canceled = true)
      (hOn : st.after next (resume signal line) = (.on work, line')) :
    Tells C mayCall st (.waiting resume next, line) (st.saidIn (resume signal line)) (work, line')
  | call {file : String} {number : Int} {text : String} {desk : Desk} {line : Line}
      {next : Except Fault String → Program (Except Fault Unit)} (hCall : mayCall) :
    Tells C mayCall st (.ready (.act (.invoke file number text) next) desk, line) []
      (.calling (C.start { st.context with canceled := line.canceled } file number text) next desk, line)
  | inner {call call' : C.State} {world : World} {desk : Desk} {line : Line}
      {next : Except Fault String → Program (Except Fault Unit)} (hStep : C.Step (call, line.world) (call', world))
      (hShelf : world.shelf = line.shelf) :
    Tells C mayCall st (.calling call next desk, line) [] (.calling call' next desk, { line with world := world })
  | answer {call : C.State} {result : Except Fault String} {desk : Desk} {line : Line}
      {next : Except Fault String → Program (Except Fault Unit)} (hResult : C.result? call = some result) :
    Tells C mayCall st (.calling call next desk, line) [] (.ready (next result) desk, line)

theorem Stage.after_eq_on {S : Type} {st : Stage} {action : Action} {next : action.Answer → Program (Except Fault Unit)}
    {reply : Reply action.Answer} {work : Work S} {line : Line} (h : st.after next reply = (.on work, line)) :
    (∃ desk answer, reply = .done (desk, some answer) line ∧ work = .ready (next answer) desk) ∨
      ∃ why resume, reply = .wait why line resume ∧ work = .waiting resume next := by
  cases reply with
  | done result line' =>
    obtain ⟨desk, answer⟩ := result
    cases answer with
    | some answer =>
      cases h
      exact .inl ⟨desk, answer, rfl, rfl⟩
    | none => cases h
  | wait why line' resume =>
    cases h
    exact .inr ⟨why, resume, rfl, rfl⟩

theorem Tells.acts {C : Calls} {mayCall : Prop} {st : Stage} {work work' : Work C.State} {line line' : Line}
    {said : Bytes} (h : Tells C mayCall st (work, line) said (work', line')) :
    Acts C mayCall st (.on work, line) (.on work', line') := by
  cases h with
  | act nested hInvokes hFinite hOn => exact hOn ▸ .act nested hInvokes
  | resume signal hStop hOn => exact hOn ▸ .resume signal hStop
  | call hCall => exact .call hCall
  | inner hStep hShelf => exact .inner hStep
  | answer hResult => exact .answer hResult

theorem Tells.of_perform {C : Calls} {mayCall : Prop} {st : Stage} {action : Action} {answer : action.Answer}
    {desk desk' : Desk} {line line' : Line} (nested : Nested) (next : action.Answer → Program (Except Fault Unit))
    (hInvokes : action.invokes = false)
    (hFinite : ∀ filter, action = .relay filter → (st.inputFeed desk line).cycle = [])
    (h : st.perform nested desk line action = .done (desk', some answer) line') :
    Tells C mayCall st (.ready (.act action next) desk, line) (st.said action answer)
      (.ready (next answer) desk', line') := by
  have hOn : st.after (S := C.State) next (st.perform nested desk line action) =
      (.on (.ready (next answer) desk'), line') := by
    rw [h]
    rfl
  have hSaid : st.saidIn (st.perform nested desk line action) = st.said action answer := by
    rw [h]
    rfl
  rw [← hSaid]
  exact .act nested hInvokes hFinite hOn

theorem Tells.files {C : Calls} {mayCall : Prop} {st : Stage} {storage : Storage} {request : FileRequest}
    {next : Except Fault Feed → Program (Except Fault Unit)} {desk : Desk} {work : Work C.State} {line line' : Line}
    {said : Bytes}
    (h : Tells C mayCall st (.ready (.act (.files storage request) next) desk, line) said (work, line')) :
    said = [] ∧ work = .ready (next (line.world.serve storage request).1) desk ∧
      line' = { line with world := (line.world.serve storage request).2 } := by
  cases h with
  | act nested hInvokes hFinite hOn =>
    cases hOn
    exact ⟨rfl, rfl, rfl⟩

/-- Whatever it is answered, the program asks for no change of the files in memory. -/
def Program.Spares : Program (Except Fault Unit) → Prop
  | .done _ => True
  | .act action next => action.alters = false ∧ ∀ answer, (next answer).Spares

namespace Work

variable {S : Type}

/-- The open files of the stage `st`, which had `handles` when it was launched, hold what it has said, `b`. -/
def Gathers (st : Stage) (handles : List Handle) (b : Bytes) : Work S → Prop
  | .ready _ desk | .calling _ _ desk => desk.handles = st.out.gathered handles b
  | @Work.waiting _ action resume _ =>
    ∀ signal line, (resume signal line).Ends fun r =>
      ∀ answer, r.2 = some answer → r.1.handles = st.out.gathered handles (b ++ st.said action answer)

def Spares : Work S → Prop
  | .ready program _ => program.Spares
  | .waiting resume next =>
    (∀ answer, (next answer).Spares) ∧
      ∀ signal line, (resume signal line).Leaves Line.shelf line.shelf
  | .calling _ next _ => ∀ result, (next result).Spares

end Work

namespace Stage

variable {S : Type} {st : Stage} {action : Action} {next : action.Answer → Program (Except Fault Unit)}
  {reply : Reply action.Answer} {work : Work S} {line : Line}

theorem after_gathers {handles : List Handle} {b : Bytes} (hOn : st.after next reply = (.on work, line))
    (hEnds : reply.Ends fun r =>
      ∀ answer, r.2 = some answer → r.1.handles = st.out.gathered handles (b ++ st.said action answer)) :
    work.Gathers st handles (b ++ st.saidIn reply) := by
  rcases after_eq_on hOn with ⟨desk, answer, rfl, rfl⟩ | ⟨why, resume, rfl, rfl⟩
  · exact hEnds answer rfl
  · have hSilent : b ++ @saidIn st action (.wait why line resume) = b := List.append_nil b
    rw [hSilent]
    exact hEnds

theorem after_spares {shelf : Bool × FileTree} (hOn : st.after next reply = (.on work, line))
    (hLeaves : reply.Leaves Line.shelf shelf) (hNext : ∀ answer, (next answer).Spares) :
    work.Spares ∧ line.shelf = shelf := by
  rcases after_eq_on hOn with ⟨desk, answer, rfl, rfl⟩ | ⟨why, resume, rfl, rfl⟩
  · exact ⟨hNext answer, hLeaves⟩
  · exact ⟨⟨hNext, hLeaves.2⟩, hLeaves.1⟩

end Stage

namespace Tells

variable {C : Calls} {mayCall : Prop} {st : Stage} {work work' : Work C.State} {line line' : Line} {said b : Bytes}
  {handles : List Handle}

theorem gathers (h : Tells C mayCall st (work, line) said (work', line')) (hJoint : st.Joint)
    (hWork : work.Gathers st handles b) : work'.Gathers st handles (b ++ said) := by
  cases h with
  | @act action next desk _ _ _ nested hInvokes hFinite hOn =>
    refine Stage.after_gathers hOn ((st.perform_gathers desk line nested hJoint hInvokes hFinite).imp ?_)
    intro r hr answer hAnswer
    rw [hr answer hAnswer, hWork, Sink.gathered_gathered]
  | resume signal hStop hOn => exact Stage.after_gathers hOn (hWork signal line)
  | call hCall => simpa [Work.Gathers] using hWork
  | inner hStep hShelf => simpa [Work.Gathers] using hWork
  | answer hResult => simpa [Work.Gathers] using hWork

theorem spares (h : Tells C mayCall st (work, line) said (work', line')) (hWork : work.Spares) :
    work'.Spares ∧ line'.shelf = line.shelf := by
  cases h with
  | @act action next desk _ _ _ nested hInvokes hFinite hOn =>
    exact Stage.after_spares hOn (st.perform_leaves_shelf nested desk line hInvokes hWork.1) hWork.2
  | resume signal hStop hOn => exact Stage.after_spares hOn (hWork.2 signal line) hWork.1
  | call hCall => exact ⟨hWork.2, rfl⟩
  | inner hStep hShelf => exact ⟨hWork, hShelf⟩
  | answer hResult => exact ⟨hWork _, rfl⟩

end Tells

end Pipework
