import Pipework.Proofs.Schedule.Basic
import Pipework.Proofs.Stage.Lone

/-!
# Builtins on a sheet

A builtin that reads all of its input, writes to its output and uses the files in memory works on three things: the
files, what is left of the input, and what it has written. A stage whose input has ended, and whose output is taken,
does with the line what its program does on such a sheet, and changes nothing else.
-/

namespace Pipework

/-- What a builtin works on. -/
structure Sheet where
  files : FileTree
  input : Bytes
  output : Bytes

/-- How `action` is answered and what becomes of the sheet, if the action keeps to it. Requests for files do if the
files of the shell are in memory. -/
def Sheet.answer? (inMemory : Bool) (s : Sheet) : (action : Action) → Option (action.Answer × Sheet)
  | .write .out data => some (none, { s with output := s.output ++ data })
  | .read .all => some ((s.input, none), { s with input := [] })
  | .relay filter =>
    some ((filter.apply none s.input, none),
      { s with input := [], output := s.output ++ filter.apply none s.input })
  | .files .shell request =>
    if inMemory then
      match World.serveMemory s.files request with
      | .ok (feed, files) => some (.ok feed, { s with files := files })
      | .error fault => some (.error fault, s)
    else none
  | _ => none

namespace Program

variable {α β : Type} (inMemory : Bool)

/-- What the program comes to on the sheet, if all of its actions keep to it. -/
def on : Program α → Sheet → Option (α × Sheet)
  | .done a, s => some (a, s)
  | .act action next, s => (s.answer? inMemory action).bind fun answered => on (next answered.1) answered.2

theorem on_bind (t : Program α) (f : α → Program β) (s : Sheet) :
    (t.bind f).on inMemory s = (t.on inMemory s).bind fun ended => (f ended.1).on inMemory ended.2 := by
  induction t generalizing s with
  | done a => rfl
  | act action next ih =>
    rw [Program.bind, on, on, Option.bind_assoc]
    exact congrArg (Option.bind _) (funext fun answered => ih answered.1 answered.2)

end Program

namespace Task

variable {α β : Type} {inMemory : Bool} {t : Task α} {s s' : Sheet}

def on (inMemory : Bool) (t : Task α) (s : Sheet) : Option (Except Fault α × Sheet) := Program.on inMemory t.run s

theorem on_bind_ok {a : α} (h : t.on inMemory s = some (.ok a, s')) (f : α → Task β) :
    (t >>= f).on inMemory s = (f a).on inMemory s' := by
  refine (Program.on_bind inMemory t.run (ExceptT.bindCont f) s).trans ?_
  rw [show Program.on inMemory t.run s = some (.ok a, s') from h]
  rfl

theorem on_bind_error {fault : Fault} (h : t.on inMemory s = some (.error fault, s')) (f : α → Task β) :
    (t >>= f).on inMemory s = some (.error fault, s') := by
  refine (Program.on_bind inMemory t.run (ExceptT.bindCont f) s).trans ?_
  rw [show Program.on inMemory t.run s = some (.error fault, s') from h]
  rfl

theorem on_perform {action : Action} {answer : action.Answer} (h : s.answer? inMemory action = some (answer, s')) :
    (perform action).on inMemory s = some (.ok answer, s') := by
  change (s.answer? inMemory action).bind _ = _
  rw [h]
  rfl

theorem on_readAll (s : Sheet) : readAll.on inMemory s = some (.ok s.input, { s with input := [] }) := rfl

theorem on_pour (data : Bytes) (s : Sheet) :
    (pour data).on inMemory s = some (.ok (), { s with output := s.output ++ data }) := by
  unfold pour
  split
  · next hEmpty =>
    rw [hEmpty, List.append_nil]
    rfl
  · rfl

end Task

namespace Line

variable (l : Line) {i j : Nat} (f g : Feed)

theorem setPipe_of_le (h : l.pipes.length ≤ i) : l.setPipe i f = l := by
  rw [setPipe, List.set_eq_of_length_le h]

theorem setPipe_setPipe : (l.setPipe i f).setPipe i g = l.setPipe i g := by
  simp [setPipe, List.set_set]

theorem setPipe_comm (h : i ≠ j) : (l.setPipe i f).setPipe j g = (l.setPipe j g).setPipe i f := by
  simp [setPipe, List.set_comm _ _ h]

theorem pipe_setPipe (h : i < l.pipes.length) : (l.setPipe i f).pipe i = f := by
  simp [setPipe, pipe, h]

theorem pipe_setPipe_of_ne (h : i ≠ j) : (l.setPipe i f).pipe j = l.pipe j := by
  simp [setPipe, pipe, List.getElem?_set_ne h]

theorem setPipe_pipe (i : Nat) : l.setPipe i (l.pipe i) = l := by
  by_cases h : i < l.pipes.length
  · simp [setPipe, pipe, h]
  · exact l.setPipe_of_le _ (by omega)

def filing (t : FileTree) : Line := { l with world := { l.world with memory := t } }

end Line

namespace Stage

variable (st : Stage)

/-- The line with `data` written to the output of the stage. -/
def put (line : Line) (data : Bytes) : Line :=
  if st.isLast then
    match st.output with
    | .host => { line with world := { line.world with output := line.world.output ++ data } }
    | .capture | .consumer => { line with captured := line.captured ++ data }
  else line.setPipe st.index ((line.pipe st.index).add data)

/-- The line in which `rest` is what is left of the input of the stage. -/
def leaving (line : Line) (rest : Bytes) : Line :=
  if st.source = .host then { line with world := { line.world with input := rest } }
  else line.setPipe (st.index - 1) (.ofBytes rest)

/-- The line once the stage has come to the sheet `s`. -/
def lineOn (line : Line) (s : Sheet) : Line := st.put (st.leaving (line.filing s.files) s.input) s.output

/-- The input of the stage is there and its output is taken. -/
structure Direct (line : Line) : Prop where
  out : st.out = .output
  source : st.source = .host ∨ st.source = .pipe ∧ st.index ≠ 0 ∧ st.index - 1 < line.pipes.length
  taken : st.isLast = false → st.index ∉ line.broken
  kept : st.isLast = true → st.output ≠ .consumer

section Lines

variable (line : Line)

theorem put_nil : st.put line [] = line := by
  unfold put
  split
  · split <;> simp
  · rw [show (line.pipe st.index).add [] = line.pipe st.index by simp [Feed.add], line.setPipe_pipe]

theorem put_put (a b : Bytes) : st.put (st.put line a) b = st.put line (a ++ b) := by
  unfold put
  split
  · split <;> simp
  · by_cases h : st.index < line.pipes.length
    · rw [Line.pipe_setPipe _ _ h, Line.setPipe_setPipe]
      simp [Feed.add]
    · have hSame (f : Feed) : line.setPipe st.index f = line := line.setPipe_of_le f (by omega)
      simp only [hSame]

theorem filing_put (t : FileTree) (data : Bytes) : (st.put line data).filing t = st.put (line.filing t) data := by
  unfold put
  split
  · split <;> rfl
  · rfl

theorem filing_leaving (t : FileTree) (rest : Bytes) :
    (st.leaving line rest).filing t = st.leaving (line.filing t) rest := by
  unfold leaving
  split <;> rfl

theorem leaving_leaving (rest rest' : Bytes) : st.leaving (st.leaving line rest) rest' = st.leaving line rest' := by
  unfold leaving
  split
  · rfl
  · rw [Line.setPipe_setPipe]

theorem leaving_put (h : st.source = .host ∨ st.index ≠ 0) (data rest : Bytes) :
    st.leaving (st.put line data) rest = st.put (st.leaving line rest) data := by
  unfold leaving put
  split
  · split
    · split <;> rfl
    · rfl
  · next hSource =>
    have hIndex : st.index - 1 ≠ st.index := by
      have := h.resolve_left hSource
      omega
    split
    · split <;> rfl
    · rw [Line.pipe_setPipe_of_ne _ _ hIndex, Line.setPipe_comm _ _ _ hIndex]

end Lines

theorem read_leaving {st : Stage} {line : Line} {desk : Desk} {x : Bytes}
    (hSource : st.source = .host ∨ st.source = .pipe) (hInput : st.inputFeed desk line = .ofBytes x) :
    st.read .all desk line = .done (desk, some (x, none)) (st.leaving line []) := by
  unfold inputFeed at hInput
  unfold read leaving
  rcases hSource with hHost | hPipe
  · rw [hHost] at hInput ⊢
    dsimp only at hInput ⊢
    rw [hInput, if_pos rfl]
    rfl
  · rw [hPipe] at hInput ⊢
    dsimp only at hInput ⊢
    rw [hInput, if_neg (by simp)]
    rfl

section Actions

variable {st} {line : Line} (h : st.Direct line) (s : Sheet)

theorem put_lineOn (data : Bytes) :
    st.put (st.lineOn line s) data = st.lineOn line { s with output := s.output ++ data } :=
  st.put_put _ _ _

theorem filing_lineOn (t : FileTree) : (st.lineOn line s).filing t = st.lineOn line { s with files := t } := by
  unfold lineOn
  rw [filing_put, filing_leaving]
  rfl

theorem broken_lineOn : (st.lineOn line s).broken = line.broken := by
  unfold lineOn put leaving
  split <;> split <;> (try split) <;> rfl

theorem memory_lineOn :
    (st.lineOn line s).world.memory = s.files ∧ (st.lineOn line s).world.inMemory = line.world.inMemory := by
  unfold lineOn put leaving
  split <;> split <;> (try split) <;> exact ⟨rfl, rfl⟩

include h

theorem Direct.apart : st.source = .host ∨ st.index ≠ 0 := h.source.imp_right fun hPipe => hPipe.2.1

theorem leaving_lineOn (rest : Bytes) :
    st.leaving (st.lineOn line s) rest = st.lineOn line { s with input := rest } := by
  unfold lineOn
  rw [leaving_put _ _ h.apart, leaving_leaving]

theorem inputFeed_lineOn (desk : Desk) : st.inputFeed desk (st.lineOn line s) = .ofBytes s.input := by
  rcases h.source with hHost | ⟨hPipe, hIndex, hBound⟩
  · rw [inputFeed, hHost]
    simp only [lineOn, put, leaving, hHost, if_true]
    split
    · split <;> rfl
    · rfl
  · have hNotHost : st.source ≠ .host := by simp [hPipe]
    have hApart : st.index ≠ st.index - 1 := by omega
    have hLeft : (st.leaving (line.filing s.files) s.input).pipe (st.index - 1) = .ofBytes s.input := by
      rw [leaving, if_neg hNotHost]
      exact Line.pipe_setPipe _ _ hBound
    rw [inputFeed, hPipe]
    dsimp only
    rw [← hLeft]
    unfold lineOn put
    split
    · split <;> rfl
    · exact Line.pipe_setPipe_of_ne _ _ hApart

theorem lineOn_self {x : Bytes} {desk : Desk} (hInput : st.inputFeed desk line = .ofBytes x) :
    st.lineOn line ⟨line.world.memory, x, []⟩ = line := by
  have hFiling : line.filing line.world.memory = line := rfl
  rw [lineOn, put_nil, hFiling]
  unfold leaving
  rcases h.source with hHost | ⟨hPipe, -, -⟩
  · rw [inputFeed, hHost] at hInput
    rw [if_pos hHost]
    obtain rfl : line.world.input = x := congrArg Feed.ready hInput
    rfl
  · rw [inputFeed, hPipe] at hInput
    rw [if_neg (by simp [hPipe]), ← hInput, line.setPipe_pipe]

theorem deliver_lineOn (data : Bytes) (desk : Desk) :
    st.deliver st.out data desk (st.lineOn line s) =
      .done (desk, some (.full data)) (st.lineOn line { s with output := s.output ++ data }) := by
  rw [← put_lineOn]
  unfold deliver put
  rw [h.out]
  dsimp only
  cases hLast : st.isLast with
  | true =>
    cases hOutput : st.output with
    | consumer => exact absurd hOutput (h.kept hLast)
    | host => rfl
    | capture => rfl
  | false =>
    have hTaken : (st.lineOn line s).broken.contains st.index = false := by
      rw [broken_lineOn]
      simpa using h.taken hLast
    rw [hTaken, Bool.and_false]
    rfl

theorem pour_lineOn (data : Bytes) (desk : Desk) :
    st.pour data desk (st.lineOn line s) =
      .done (desk, some (.full data)) (st.lineOn line { s with output := s.output ++ data }) := by
  unfold pour
  split
  · next hEmpty => rw [hEmpty, List.append_nil]
  · exact deliver_lineOn h s data desk

theorem read_lineOn (desk : Desk) :
    st.read .all desk (st.lineOn line s) =
      .done (desk, some (s.input, none)) (st.lineOn line { s with input := [] }) := by
  rw [← leaving_lineOn h s []]
  exact read_leaving (h.source.imp_right And.left) (inputFeed_lineOn h s desk)

theorem relay_lineOn (filter : Filter) (desk : Desk) :
    st.relay filter desk (st.lineOn line s) =
      .done (desk, some (filter.apply none s.input, none))
        (st.lineOn line { s with input := [], output := s.output ++ filter.apply none s.input }) := by
  have hInput := inputFeed_lineOn h s desk
  unfold relay
  dsimp only
  rw [hInput, if_neg (by simp [Feed.ofBytes])]
  rcases h.source with hHost | ⟨hPipe, -, -⟩
  · -- The input of the host is used up only once it has been passed on.
    have hScanned (s : Sheet) : (st.lineOn line s).world.input = s.input := by
      have hInput := inputFeed_lineOn h s desk
      rw [inputFeed, hHost] at hInput
      exact congrArg Feed.ready hInput
    have hScan : st.scan desk (st.lineOn line s) = .done (desk, some (s.input, none)) (st.lineOn line s) := by
      rw [scan, if_pos hHost, hScanned]
    have hDropped (s : Sheet) :
        (st.lineOn line s).dropInput s.input.length = st.lineOn line { s with input := [] } := by
      rw [← leaving_lineOn h s [], Line.dropInput, leaving, if_pos hHost, hScanned, List.drop_length]
    rw [hScan]
    simp only [Run.bind_done, pour_lineOn h, Delivery.full, if_pos hHost]
    exact congrArg (Run.done _) (hDropped { s with output := s.output ++ filter.apply none s.input })
  · have hNotHost : st.source ≠ .host := by simp [hPipe]
    have hScan : st.scan desk (st.lineOn line s) =
        .done (desk, some (s.input, none)) (st.lineOn line { s with input := [] }) := by
      rw [scan, if_neg hNotHost, read_lineOn h]
    rw [hScan]
    simp only [Run.bind_done, pour_lineOn h, Delivery.full, if_neg hNotHost]

theorem perform_lineOn {nested : Nested} {desk : Desk} {action : Action} {answer : action.Answer} {s s' : Sheet}
    (hAnswer : s.answer? line.world.inMemory action = some (answer, s')) :
    st.perform nested desk (st.lineOn line s) action = .done (desk, some answer) (st.lineOn line s') := by
  unfold Sheet.answer? at hAnswer
  split at hAnswer
  · next data =>
    cases hAnswer
    exact congrArg (Reply.map Delivery.fault) (deliver_lineOn h s data desk)
  · cases hAnswer
    exact read_lineOn h s desk
  · next filter =>
    cases hAnswer
    exact relay_lineOn h s filter desk
  · next request =>
    obtain ⟨hFiles, hSame⟩ := @memory_lineOn st line s
    have hServe (w : World) (hw : w.inMemory = true) : w.serve .shell request =
        match World.serveMemory w.memory request with
        | .ok (feed, memory) => (.ok feed, { w with memory := memory })
        | .error fault => (.error fault, w) := if_pos hw
    split at hAnswer
    · next hMemory =>
      rw [perform, hServe _ (hSame.trans hMemory), hFiles]
      split at hAnswer
      · next feed files _ =>
        cases hAnswer
        exact congrArg (Run.done _) (filing_lineOn s files)
      · cases hAnswer
        rfl
    · cases hAnswer
  · cases hAnswer

/-- The stage does with the line what its program does on the sheet, and ends as that does. -/
theorem run_on {nested : Nested} {desk : Desk} {t : Program (Except Fault Unit)} {result : Except Fault Unit}
    {s s' : Sheet} (ht : t.on line.world.inMemory s = some (result, s')) :
    st.run nested t desk (st.lineOn line s) = .done () (st.close (endFault result) desk (st.lineOn line s')) := by
  induction t generalizing s with
  | done ending =>
    cases ht
    cases result <;> rfl
  | act action next ih =>
    obtain ⟨⟨answer, s₁⟩, hAnswer, hRest⟩ := Option.bind_eq_some_iff.mp ht
    rw [run_answered (perform_lineOn h hAnswer)]
    exact ih answer hRest

end Actions

/-- A stage before the last writes to the pipe after it, and leaves those further on alone. -/
theorem pipes_lineOn {line : Line} (hLast : st.isLast = false) (hApart : st.source = .host ∨ st.index ≠ 0) (s : Sheet)
    {j : Nat} (hj : st.index ≤ j) :
    (st.lineOn line s).pipes[j]? =
      if j = st.index then line.pipes[j]?.map (·.add s.output) else line.pipes[j]? := by
  have hLeft : (st.leaving (line.filing s.files) s.input).pipes[j]? = line.pipes[j]? := by
    unfold leaving
    split
    · rfl
    · next hSource =>
      have hIndex := hApart.resolve_left hSource
      exact List.getElem?_set_ne (by omega)
  unfold lineOn put
  rw [if_neg (by simp [hLast]), ← hLeft]
  generalize st.leaving (line.filing s.files) s.input = l
  rw [Line.setPipe, List.getElem?_set]
  by_cases hSame : st.index = j
  · subst hSame
    by_cases hBound : st.index < l.pipes.length
    · simp [hBound, Line.pipe]
    · simp [hBound]
  · rw [if_neg hSame, if_neg (Ne.symm hSame)]

end Stage

end Pipework
