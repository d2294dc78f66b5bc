import Pipework.Proofs.Stage.Launch

/-!
# What flows through a pipeline

The stages of a pipeline but the last run one after the other, if none of them waits. Each then finds all of what the
one before it has written in its pipe, and leaves all that it has written itself in the next. This is said of one
action of a stage, and from it of a whole stage.
-/

namespace Pipework

namespace Run

variable {σ τ α β : Type}

/-- What holds of a run that comes to its end without waiting; `waits` tells whether it may be that it waits. -/
def Arrives (waits : Prop) (P : α → σ → Prop) : Run σ α → Prop
  | .done a state => P a state
  | .wait _ _ _ => waits

variable {waits : Prop} {P : α → σ → Prop} {r : Run σ α}

theorem Arrives.bind {Q : β → σ → Prop} {f : α → σ → Run σ β} (h : r.Arrives waits P)
    (hf : ∀ a state, P a state → (f a state).Arrives waits Q) : (r.bind f).Arrives waits Q := by
  cases r with
  | done a state => exact hf a state h
  | wait why state resume => exact h

theorem Arrives.embed {get : τ → σ} {put : σ → τ → τ} {whole : τ} {Q : α → τ → Prop} (hWaits : waits)
    (hPut : ∀ a state, Q a (put state whole)) : (r.embed get put whole).Arrives waits Q := by
  cases r with
  | done a state => exact hPut a state
  | wait why state resume => exact hWaits

theorem Arrives.finish (h : r.Arrives waits P) (hDone : r.isDone = true) : P r.finish.1 r.finish.2 := by
  cases r with
  | done a state => exact h
  | wait why state resume => cases hDone

theorem Arrives.isDone (h : r.Arrives False P) : r.isDone = true := by
  cases r with
  | done a state => rfl
  | wait why state resume => exact h.elim

end Run

theorem Feed.take?_ofBytes (data : Bytes) (amount : Amount) :
    ∃ answer rest, (ofBytes data).take? amount = some (answer, ofBytes rest) := by
  have hUnroll (n : Nat) : (ofBytes data).unroll n = ofBytes data := by simp [unroll, ofBytes]
  unfold take?
  cases amount with
  | all => exact ⟨_, _, rfl⟩
  | ready n =>
    dsimp only
    rw [hUnroll]
    exact ⟨_, _, rfl⟩
  | count n =>
    simp only [hUnroll, ite_self]
    split
    · exact ⟨_, _, rfl⟩
    · exact ⟨_, _, rfl⟩
  | line =>
    simp only [hUnroll, ite_self]
    split
    · exact ⟨_, _, rfl⟩
    · exact ⟨_, _, rfl⟩

theorem Feed.cycle_take (f : Feed) (amount : Amount) : ((f.take? amount).getD f.empty).2.cycle = f.cycle := by
  have hUnroll (n : Nat) : (f.unroll n).cycle = f.cycle := by
    unfold unroll
    split <;> rfl
  cases amount <;> grind [take?, split, empty]

/-- What the stages of a pipeline have to do with each other. -/
structure Line.Flow where
  pipes : List Feed
  broken : List Nat
  board : Board
  canceled : Bool

def Line.flow (l : Line) : Line.Flow := ⟨l.pipes, l.broken, l.board, l.canceled⟩

/-- The stages before stage `j` have ended, one after the other, and the others have not begun; there are `n` pipes. -/
structure Line.Flow.Reaches (n j : Nat) (f : Line.Flow) : Prop where
  before : j ≠ 0 → ∃ data, f.pipes[j - 1]? = some (.ofBytes data)
  after : ∀ i, j ≤ i → i < n → f.pipes[i]? = some .awaiting
  broken : ∀ i ∈ f.broken, i + 1 < j
  cancels : f.board.cancels = true → f.canceled = true

/-- The same while stage `j` runs, which may have written something. -/
structure Line.Flow.Within (n j : Nat) (f : Line.Flow) : Prop where
  before : j ≠ 0 → ∃ data, f.pipes[j - 1]? = some (.ofBytes data)
  own : ∃ data, f.pipes[j]? = some (.add .awaiting data)
  after : ∀ i, j < i → i < n → f.pipes[i]? = some .awaiting
  broken : ∀ i ∈ f.broken, i + 1 < j
  cancels : f.board.cancels = true → f.canceled = true

namespace Line.Flow

variable {n j : Nat}

theorem Reaches.within {f : Flow} (h : f.Reaches n j) (hj : j < n) : f.Within n j where
  before := h.before
  own := ⟨[], h.after j (Nat.le_refl j) hj⟩
  after i hi := h.after i (Nat.le_of_lt hi)
  broken := h.broken
  cancels := h.cancels

theorem Reaches.cancel {f : Flow} (h : f.Reaches n j) : Reaches n j { f with canceled := true } :=
  ⟨h.before, h.after, h.broken, fun _ => rfl⟩

theorem Within.setOwn {f : Flow} (h : f.Within n j) (data : Bytes) :
    Within n j { f with pipes := f.pipes.set j (Feed.awaiting.add data) } where
  before hj := by
    obtain ⟨data, hData⟩ := h.before hj
    refine ⟨data, ?_⟩
    rw [List.getElem?_set_ne (by omega), hData]
  own := by
    obtain ⟨old, hOld⟩ := h.own
    obtain ⟨hLength, -⟩ := List.getElem?_eq_some_iff.mp hOld
    exact ⟨data, List.getElem?_set_self hLength⟩
  after i hi hn := by
    rw [List.getElem?_set_ne (by omega)]
    exact h.after i hi hn
  broken := h.broken
  cancels := h.cancels

theorem Within.setBefore {f : Flow} (h : f.Within n j) (hj : j ≠ 0) (data : Bytes) :
    Within n j { f with pipes := f.pipes.set (j - 1) (.ofBytes data) } where
  before _ := by
    obtain ⟨old, hOld⟩ := h.before hj
    obtain ⟨hLength, -⟩ := List.getElem?_eq_some_iff.mp hOld
    exact ⟨data, List.getElem?_set_self hLength⟩
  own := by
    obtain ⟨own, hOwn⟩ := h.own
    refine ⟨own, ?_⟩
    rw [List.getElem?_set_ne (by omega), hOwn]
  after i hi hn := by
    rw [List.getElem?_set_ne (by omega)]
    exact h.after i hi hn
  broken := h.broken
  cancels := h.cancels

end Line.Flow

/-- An action that may wait although its input has ended. -/
def Action.lasts : Action → Bool
  | .flood _ | .pause | .invoke _ _ _ => true
  | _ => false

/-- An action that waits for nothing but the end of its input, of which it takes everything. -/
def Action.isPlain : Action → Bool
  | .flood _ | .pause | .invoke _ _ _ => false
  | .read amount => amount = .all
  | _ => true

theorem Action.lasts_of_isPlain {action : Action} (h : action.isPlain = true) : action.lasts = false := by
  cases action with
  | flood data => cases h
  | pause => cases h
  | invoke file line script => cases h
  | _ => rfl

theorem Action.invokes_of_isPlain {action : Action} (h : action.isPlain = true) : action.invokes = false := by
  cases action with
  | invoke file line script => cases h
  | _ => rfl

/-- Neither writes without end, nor waits to be stopped, nor runs a script, and reads all of its input if any. -/
def Program.IsPlain {α : Type} : Program α → Prop
  | .done _ => True
  | .act action next => action.isPlain = true ∧ ∀ answer, (next answer).IsPlain

namespace Stage

/-- A stage before the last, whose input is a pipe only if there is a stage before it. -/
structure IsInner (st : Stage) : Prop where
  inner : st.isLast = false
  source : st.source = .pipe → st.index ≠ 0

/-- The stage runs in its turn. What it reads in place of its input has an end if it must not wait. -/
structure InTurn (waits : Prop) (n : Nat) (st : Stage) (desk : Desk) (line : Line) : Prop where
  flow : line.flow.Within n st.index
  feed : waits ∨ desk.feed.cycle = []

variable {waits : Prop} {n : Nat} {st : Stage} {desk : Desk} {line : Line} (hInner : st.IsInner)
  (h : st.InTurn waits n desk line)

include h

theorem InTurn.pipe_own : ∃ data, line.pipe st.index = (Feed.awaiting.add data) := by
  obtain ⟨data, hData⟩ := h.flow.own
  have hPipe : line.pipes[st.index]? = some (.add .awaiting data) := hData
  exact ⟨data, by rw [Line.pipe, List.getD_eq_getElem?_getD, hPipe, Option.getD_some]⟩

theorem InTurn.pipe_before (hj : st.index ≠ 0) : ∃ data, line.pipe (st.index - 1) = .ofBytes data := by
  obtain ⟨data, hData⟩ := h.flow.before hj
  have hPipe : line.pipes[st.index - 1]? = some (.ofBytes data) := hData
  exact ⟨data, by rw [Line.pipe, List.getD_eq_getElem?_getD, hPipe, Option.getD_some]⟩

include hInner

theorem deliver_arrives (sink : Sink) (data : Bytes) :
    (st.deliver sink data desk line).Arrives waits fun x line => st.InTurn waits n x.1 line := by
  cases sink with
  | null => exact h
  | errors => exact ⟨h.flow, h.feed⟩
  | file i =>
    unfold deliver
    dsimp only
    split
    · exact h
    · exact ⟨h.flow, h.feed⟩
  | output =>
    obtain ⟨old, hOld⟩ := h.pipe_own
    unfold deliver
    rw [hInner.inner]
    simp only [Bool.not_false, if_true]
    split
    · exact h
    · rw [hOld]
      exact ⟨h.flow.setOwn (old ++ data), h.feed⟩

omit h in
theorem flood_arrives (hWaits : waits) (data : Bytes) {P : Desk × Option (Option Fault) → Line → Prop} :
    (st.flood data desk line).Arrives waits P := by
  unfold flood
  rw [hInner.inner]
  split
  · exact hWaits
  · exact hWaits

theorem read_arrives (amount : Amount) :
    (st.read amount desk line).Arrives waits fun x line => st.InTurn waits n x.1 line := by
  unfold read
  split
  · exact ⟨h.flow, h.feed⟩
  · exact ⟨h.flow, h.feed.imp id fun hCycle => (desk.feed.cycle_take amount).trans hCycle⟩
  · next hSource =>
    have hj := hInner.source hSource
    obtain ⟨data, hData⟩ := h.pipe_before hj
    obtain ⟨answer, rest, hTake⟩ := Feed.take?_ofBytes data amount
    dsimp only
    rw [hData, hTake]
    exact ⟨h.flow.setBefore hj rest, h.feed⟩

theorem pour_arrives (data : Bytes) :
    (st.pour data desk line).Arrives waits fun x line => st.InTurn waits n x.1 line := by
  unfold pour
  split
  · exact h
  · exact deliver_arrives hInner h st.out data

theorem scan_arrives : (st.scan desk line).Arrives waits fun x line => st.InTurn waits n x.1 line := by
  unfold scan
  split
  · exact h
  · exact read_arrives hInner h .all

/-- What comes again and again can only come from a file. -/
theorem waits_of_cycle (hCycle : (st.inputFeed desk line).cycle ≠ []) : waits := by
  unfold inputFeed at hCycle
  split at hCycle
  · exact absurd rfl hCycle
  · next hSource =>
    obtain ⟨data, hData⟩ := h.pipe_before (hInner.source hSource)
    rw [hData] at hCycle
    exact absurd rfl hCycle
  · exact h.feed.resolve_right hCycle

omit hInner in
theorem InTurn.used {p : Prop} [Decidable p] (k : Nat) :
    st.InTurn waits n desk (if p then line.dropInput k else line) := by
  split
  · exact ⟨h.flow, h.feed⟩
  · exact h

omit hInner h in
theorem arrives_map {α β : Type} (f : α → β) {r : Reply α}
    (h : Run.Arrives waits (fun x line => st.InTurn waits n x.1 line) r) :
    Run.Arrives waits (fun x line => st.InTurn waits n x.1 line) (r.map f) :=
  Run.Arrives.bind h fun _ _ h => h

theorem relay_arrives (filter : Filter) :
    (st.relay filter desk line).Arrives waits fun x line => st.InTurn waits n x.1 line := by
  unfold relay
  dsimp only
  split
  · next hCycle =>
    have hWaits := waits_of_cycle hInner h hCycle
    refine (pour_arrives hInner h _).bind fun (desk, delivery) line h => ?_
    dsimp only
    split
    · exact arrives_map _ (flood_arrives hInner hWaits _)
    · exact h
  · refine (scan_arrives hInner h).bind fun (desk, answer) line h => ?_
    cases answer with
    | none => exact h
    | some answer => exact (pour_arrives hInner h _).bind fun (desk, delivery) line h => h.used _

theorem perform_arrives (nested : Nested) {action : Action} (hLasts : action.lasts = true → waits) :
    (st.perform nested desk line action).Arrives waits fun x line => st.InTurn waits n x.1 line := by
  cases action with
  | write channel data =>
    cases channel with
    | out => exact arrives_map _ (deliver_arrives hInner h st.out data)
    | err => exact arrives_map _ (deliver_arrives hInner h st.err data)
  | flood data => exact flood_arrives hInner (hLasts rfl) data
  | read amount => exact read_arrives hInner h amount
  | relay filter => exact relay_arrives hInner h filter
  | lookup key => exact h
  | assign key value => exact ⟨h.flow, h.feed⟩
  | workDirectory => exact h
  | files storage request => exact ⟨h.flow, h.feed⟩
  | inquire side => exact h
  | pause =>
    unfold perform
    split
    · exact h
    · exact hLasts rfl
  | invoke file number script =>
    refine Run.Arrives.bind
      (Run.Arrives.embed (Q := fun _ line => st.InTurn waits n desk line) (hLasts rfl) fun _ _ => ?_) fun _ _ h => h
    exact ⟨h.flow, h.feed⟩
  | consult name ask => exact ⟨h.flow, h.feed⟩

omit hInner in
/-- The pipe after a stage that has ended holds what the stage has written, and an end. -/
theorem close_reaches (fault : Option Fault) :
    (st.close fault desk line).flow.Reaches n (st.index + 1) where
  before _ := by
    obtain ⟨data, hOwn⟩ := h.flow.own
    have hPipe : line.pipes[st.index]? = some (Feed.awaiting.add data) := hOwn
    refine ⟨data, ?_⟩
    simp [Line.flow, close, hPipe, Feed.add, Feed.finish, Feed.awaiting, Feed.ofBytes]
  after i hi hn := by
    have hPipe : line.pipes[i]? = some .awaiting := h.flow.after i hi hn
    have hNe : st.index ≠ i := by omega
    simp [Line.flow, close, hPipe, hNe]
  broken i hi := by
    have hBefore (i : Nat) (hi : i ∈ line.broken) : i + 1 < st.index := h.flow.broken i hi
    have hBroken : i ∈ if st.index = 0 then line.broken else (st.index - 1) :: line.broken := hi
    split at hBroken
    · exact Nat.lt_succ_of_lt (hBefore i hBroken)
    · rcases List.mem_cons.mp hBroken with rfl | hOld
      · omega
      · exact Nat.lt_succ_of_lt (hBefore i hOld)
  cancels hCancels := Bool.or_eq_true_iff.mpr (.inr hCancels)

theorem run_arrives (nested : Nested) {program : Program (Except Fault Unit)} (hProgram : waits ∨ program.IsPlain) :
    (st.run nested program desk line).Arrives waits fun _ line => line.flow.Reaches n (st.index + 1) := by
  induction program generalizing desk line with
  | done result => exact close_reaches h _
  | act action next ih =>
    have hLasts : action.lasts = true → waits := by
      intro hLasts
      exact hProgram.resolve_right fun hPlain => by simp [Action.lasts_of_isPlain hPlain.1] at hLasts
    unfold run
    refine (perform_arrives hInner h nested hLasts).bind fun (desk, answer) line h => ?_
    cases answer with
    | some answer => exact ih answer h (hProgram.imp id fun hPlain => hPlain.2 answer)
    | none => exact close_reaches h _

end Stage

end Pipework
