import Pipework.Proofs.Sheet.Basic
import Pipework.Proofs.Splice.Launches

/-!
# Rows of commands

In a pipeline of builtins that keep to a sheet, each finds all that the one before it has written as its input. None of
them waits, and the pipeline comes to what the last one comes to.
-/

namespace Pipework

/-- What a builtin that keeps to its sheet leaves alone, apart from the pipes. -/
def World.aside (w : World) : World := { w with memory := .empty, input := [], output := [], trace := [] }

/-- The line apart from the files in memory, the input of the host and the pipes. -/
def Line.margin (l : Line) : Line :=
  { l with world := { l.world with memory := .empty, input := [] }, pipes := [], broken := [] }

/-- It is the turn of the stage `k` of a pipeline with `n` pipes, the files in memory are `t` and its input is `x`. -/
structure Line.Arrives (first : Line) (n k : Nat) (t : FileTree) (x : Bytes) (line : Line) : Prop where
  margin : line.margin = first.margin
  files : line.world.memory = t
  host : k = 0 → line.world.input = x
  own : ∀ i, k = i + 1 → line.pipes[i]? = some (.ofBytes x)
  ahead : ∀ j, k ≤ j → j < n → line.pipes[j]? = some .awaiting
  broken : ∀ j ∈ line.broken, j < k

def Output.captured (o : Output) (data : Bytes) : Bytes := if o = .capture then data else []

/-- What of the output of a pipeline goes to the host. -/
def Output.printed (o : Output) (data : Bytes) : Bytes := if o = .host then data else []

namespace Stage

variable {st : Stage} {line : Line} {s : Sheet}

theorem aside_lineOn : (st.lineOn line s).world.aside = line.world.aside := by
  unfold lineOn put leaving
  split <;> split <;> (try split) <;> rfl

theorem board_lineOn : (st.lineOn line s).board = line.board := by
  unfold lineOn put leaving
  split <;> split <;> (try split) <;> rfl

theorem output_lineOn (hLast : st.isLast = true) (hOutput : st.output ≠ .consumer) :
    (st.lineOn line s).captured = line.captured ++ st.output.captured s.output ∧
      (st.lineOn line s).world.output = line.world.output ++ st.output.printed s.output := by
  have hLeft : (st.leaving (line.filing s.files) s.input).captured = line.captured ∧
      (st.leaving (line.filing s.files) s.input).world.output = line.world.output := by
    unfold leaving
    split <;> exact ⟨rfl, rfl⟩
  unfold lineOn put
  rw [if_pos hLast]
  cases h : st.output with
  | consumer => exact absurd h hOutput
  | host => simp [Output.captured, Output.printed, hLeft]
  | capture => simp [Output.captured, Output.printed, hLeft]

section Inner

variable (hLast : st.isLast = false)

include hLast

theorem margin_lineOn : (st.lineOn line s).margin = line.margin := by
  unfold lineOn put leaving
  rw [if_neg (by simp [hLast])]
  split <;> rfl

theorem margin_close (hReadings : st.readings = []) (hFirst : line.board.first = none) (feed : Feed) (log : Bytes) :
    (st.close none ⟨feed, [], log⟩ line).margin = line.margin := by
  have hComplete : line.board.complete false none = line.board := by simp [Board.complete]
  have hCancels : line.board.cancels = false := by simp [Board.cancels, hFirst]
  unfold close
  simp only [hLast, hReadings, Option.map_none, hComplete, hCancels, Bool.or_false]
  rfl

end Inner

end Stage

namespace Invoker

/-- The command is that of a builtin that goes on while others do. On the sheet `s` the builtin comes to `s'`, and ends
with `fault` or without one. -/
structure Does (v : Invoker) (w : World) (c : Command) (s : Sheet) (fault : Option Fault) (s' : Sheet) : Prop where
  bare : c.redirections = []
  builtin : ∃ b, w.builtin? (c.args.headD "") = some b ∧ b.inOrder = false ∧ ∀ hostInput, ∃ result,
    (b.task ⟨c.args, c.env, v.directory w, hostInput⟩).on w.inMemory s = some (result, s') ∧ endFault result = fault

/-- Commands that succeed one after the other, each on what the one before has written. -/
inductive Row (v : Invoker) (w : World) : List Command → FileTree → Bytes → FileTree → Bytes → Prop
  | nil {t : FileTree} {x : Bytes} : Row v w [] t x t x
  | cons {c : Command} {cs : List Command} {t t' t'' : FileTree} {x rest y z : Bytes}
      (hFirst : v.Does w c ⟨t, x, []⟩ none ⟨t', rest, y⟩) (hRest : Row v w cs t' y t'' z) : Row v w (c :: cs) t x t'' z

theorem Does.congr {v : Invoker} {w w' : World} {c : Command} {s s' : Sheet} {fault : Option Fault}
    (h : v.Does w c s fault s') (hSame : w'.aside = w.aside) : v.Does w' c s fault s' where
  bare := h.bare
  builtin := by
    have hBuiltin : w'.aside.builtin? = w.aside.builtin? := congrArg World.builtin? hSame
    have hDirectory : v.directory w'.aside = v.directory w.aside := congrArg v.directory hSame
    have hMemory : w'.aside.inMemory = w.aside.inMemory := congrArg World.inMemory hSame
    change w'.builtin? = w.builtin? at hBuiltin
    change v.directory w' = v.directory w at hDirectory
    change w'.inMemory = w.inMemory at hMemory
    rw [hBuiltin, hDirectory, hMemory]
    exact h.builtin

theorem Row.congr {v : Invoker} {w w' : World} {cs : List Command} {t t' : FileTree} {x y : Bytes}
    (h : v.Row w cs t x t' y) (hSame : w'.aside = w.aside) : v.Row w' cs t x t' y := by
  induction h with
  | nil => exact .nil
  | cons hFirst _ ih => exact .cons (hFirst.congr hSame) ih

theorem Row.concat {v : Invoker} {w : World} {cs : List Command} {c : Command} {t t' t'' : FileTree}
    {x y rest z : Bytes} (h : v.Row w cs t x t' y) (hLast : v.Does w c ⟨t', y, []⟩ none ⟨t'', rest, z⟩) :
    v.Row w (cs ++ [c]) t x t'' z := by
  induction h with
  | nil => exact .cons hLast .nil
  | cons hFirst _ ih => exact .cons hFirst (ih hLast)

theorem Row.concurrent {v : Invoker} {w : World} {cs : List Command} {t t' : FileTree} {x y : Bytes}
    (h : v.Row w cs t x t' y) : Concurrent w cs := by
  induction h with
  | nil => exact List.forall_mem_nil _
  | cons hFirst _ ih =>
    obtain ⟨b, hBuiltin, hOrder, -⟩ := hFirst.builtin
    refine List.forall_mem_cons.mpr ⟨fun b' hb' => ?_, ih⟩
    obtain rfl : b = b' := Option.some.inj (hBuiltin.symm.trans hb')
    exact hOrder

variable {v : Invoker} {nested : Nested} {output : Output} {first line : Line} {n k : Nat} {t t' : FileTree}
  {x rest y : Bytes} {c : Command} {b : Builtin} {isLast : Bool}

section Stages

variable (h : first.Arrives n k t x line)

include h

theorem direct (hOutput : output ≠ .consumer) :
    (v.builtinLaunch output k isLast c first b).stage.Direct line where
  out := rfl
  source := by
    cases k with
    | zero => exact .inl rfl
    | succ i =>
      obtain ⟨hBound, -⟩ := List.getElem?_eq_some_iff.mp (h.own i rfl)
      exact .inr ⟨rfl, i.succ_ne_zero, hBound⟩
  taken _ hBroken := Nat.lt_irrefl k (h.broken k hBroken)
  kept _ := hOutput

theorem inputFeed_arrives (desk : Desk) :
    (v.builtinLaunch output k isLast c first b).stage.inputFeed desk line = .ofBytes x := by
  cases k with
  | zero => exact congrArg Feed.ofBytes (h.host rfl)
  | succ i =>
    have hOwn := h.own i rfl
    have hPipe : line.pipe i = .ofBytes x := by rw [Line.pipe, List.getD_eq_getElem?_getD, hOwn]; rfl
    exact hPipe

variable (nested) in
theorem run_arrives (hOutput : output ≠ .consumer) {result : Except Fault Unit} {s' : Sheet}
    (hTask : Task.on first.world.inMemory (v.builtinLaunch output k isLast c first b).task ⟨t, x, []⟩ =
      some (result, s')) :
    (v.builtinLaunch output k isLast c first b).run nested line =
      .done () ((v.builtinLaunch output k isLast c first b).stage.close (endFault result) ⟨.nothing, [], []⟩
        ((v.builtinLaunch output k isLast c first b).stage.lineOn line s')) := by
  have hDirect : (v.builtinLaunch output k isLast c first b).stage.Direct line := direct h hOutput
  have hSelf := Stage.lineOn_self hDirect (inputFeed_arrives h ⟨.nothing, [], []⟩)
  rw [h.files] at hSelf
  have hMemory : line.world.inMemory = first.world.inMemory := congrArg (·.world.inMemory) h.margin
  rw [← hMemory] at hTask
  have hRun := @Stage.run_on _ line hDirect nested ⟨.nothing, [], []⟩ _ _ _ _ hTask
  rw [hSelf] at hRun
  exact hRun

variable (nested) in
/-- A stage before the last that succeeds hands on what it has written. -/
theorem leave_arrives (hOutput : output ≠ .consumer) (hBoard : first.board.first = none) (hk : k < n)
    {result : Except Fault Unit}
    (hTask : Task.on first.world.inMemory (v.builtinLaunch output k false c first b).task ⟨t, x, []⟩ =
      some (result, ⟨t', rest, y⟩))
    (hResult : endFault result = none) :
    let l := v.builtinLaunch output k false c first b
    (l.run nested line).isDone = true ∧ first.Arrives n (k + 1) t' y (l.leave nested line) := by
  intro l
  have hRun := run_arrives nested h hOutput hTask
  rw [hResult] at hRun
  have hDirect : l.stage.Direct line := direct h hOutput
  have hLeave : l.leave nested line = l.stage.close none ⟨.nothing, [], []⟩ (l.stage.lineOn line ⟨t', rest, y⟩) := by
    rw [Launch.leave, hRun]
    rfl
  have hMargin : (l.stage.lineOn line ⟨t', rest, y⟩).margin = line.margin := Stage.margin_lineOn rfl
  have hBoard' : (l.stage.lineOn line ⟨t', rest, y⟩).board.first = none :=
    (congrArg (·.board.first) (hMargin.trans h.margin)).trans hBoard
  have hPipes {j : Nat} (hj : k ≤ j) : (l.leave nested line).pipes[j]? =
      if j = k then line.pipes[j]?.map fun pipe => (pipe.add y).finish else line.pipes[j]? := by
    rw [hLeave]
    change ((l.stage.lineOn line ⟨t', rest, y⟩).pipes.modify k Feed.finish)[j]? = _
    rw [List.getElem?_modify, l.stage.pipes_lineOn rfl hDirect.apart ⟨t', rest, y⟩ hj, show l.stage.index = k from rfl]
    by_cases hSame : j = k
    · subst hSame
      simp [Option.map_map, Function.comp_def]
    · simp [hSame, Ne.symm hSame]
  refine ⟨by rw [hRun]; rfl, ?_⟩
  constructor
  · rw [hLeave]
    exact (Stage.margin_close rfl rfl hBoard' _ _).trans (hMargin.trans h.margin)
  · rw [hLeave]
    exact (Stage.memory_lineOn ⟨t', rest, y⟩).1
  · exact fun hZero => absurd hZero k.succ_ne_zero
  · intro i hi
    obtain rfl : k = i := Nat.succ.inj hi
    rw [hPipes (Nat.le_refl k), if_pos rfl, h.ahead k (Nat.le_refl k) hk]
    rfl
  · intro j hj hBound
    rw [hPipes (by omega), if_neg (by omega)]
    exact h.ahead j (by omega) hBound
  · intro j hj
    rw [hLeave] at hj
    change j ∈ (if k = 0 then (l.stage.lineOn line _).broken else (k - 1) :: (l.stage.lineOn line _).broken) at hj
    rw [Stage.broken_lineOn] at hj
    have hBefore : j < k ∨ j = k - 1 := by
      split at hj
      · exact .inl (h.broken j hj)
      · exact (List.mem_cons.mp hj).symm.imp_left (h.broken j)
    omega

end Stages

variable (nested) in
/-- Commands in a row are launched on a line that stays as it is, and then each ends in its turn. -/
theorem Row.launches {w : World} {cs : List Command} (h : v.Row w cs t x t' y) (hw : first.world = w)
    (hOutput : output ≠ .consumer) (hBoard : first.board.first = none) (k : Nat) :
    (v.launchFront output k cs first).fault = none ∧ (v.launchFront output k cs first).line = first ∧
      ∀ line, k + cs.length ≤ n → first.Arrives n k t x line →
        EndInTurn nested (v.launchFront output k cs first).starts line ∧
        first.Arrives n (k + cs.length) t' y
          ((v.launchFront output k cs first).starts.foldl (Launch.leave nested) line) := by
  induction h generalizing k with
  | nil => exact ⟨rfl, rfl, fun line _ hLine => ⟨trivial, hLine⟩⟩
  | @cons c cs t t' t'' x rest y z hFirst hRest ih =>
    obtain ⟨b, hBuiltin, -, hTask⟩ := hFirst.builtin
    obtain ⟨hFault, hSame, hTurn⟩ := ih (k + 1)
    rw [← hw] at hBuiltin
    have hLaunch := v.launch_builtin output k false hBuiltin hFirst.bare
    unfold launchFront
    rw [hLaunch]
    refine ⟨hFault, hSame, fun line hLength hLine => ?_⟩
    rw [List.length_cons] at hLength ⊢
    obtain ⟨result, hOn, hResult⟩ := hTask ((if k = 0 then Source.host else .pipe) == .host)
    rw [← hw] at hOn
    obtain ⟨hDone, hNext⟩ := leave_arrives nested hLine hOutput hBoard (by omega) hOn hResult
    rw [show k + (cs.length + 1) = k + 1 + cs.length by omega] at hLength ⊢
    obtain ⟨hEnds, hLast⟩ := hTurn _ hLength hNext
    exact ⟨⟨hDone, hEnds⟩, hLast⟩

variable (nested) in
/-- The stage that is launched for the command `c`, the last one of a row, ends as the command does. -/
theorem run_last {w : World} {fault : Option Fault} (h : first.Arrives n k t x line) (hw : first.world = w)
    (hOutput : output ≠ .consumer) (hCaptured : first.captured = []) {pipefail : Bool}
    (hBoard : first.board = .opened pipefail)
    (hLast : v.Does w c ⟨t, x, []⟩ fault ⟨t', rest, y⟩) :
    ∃ start last, v.launch output k true c first = (.ok start, first) ∧ start.run nested line = .done () last ∧
      last.board.verdict = fault.map (Failure.ofFault (located (v.directory w) c.render) []) ∧
      last.captured = output.captured y ∧ last.world.memory = t' ∧
      last.world.output = first.world.output ++ output.printed y ∧ last.world.aside = first.world.aside := by
  subst hw
  obtain ⟨b, hBuiltin, -, hTask⟩ := hLast.builtin
  let start : Launch := v.builtinLaunch output k true c first b
  obtain ⟨result, hOn, hResult⟩ := hTask (start.stage.source == .host)
  let ended : Line := start.stage.lineOn line ⟨t', rest, y⟩
  have hRun : start.run nested line = .done () (start.stage.close (endFault result) ⟨.nothing, [], []⟩ ended) :=
    run_arrives nested h hOutput hOn
  have hDirect : start.stage.Direct line := direct h hOutput
  obtain ⟨hEndCaptured, hEndPrinted⟩ : ended.captured = line.captured ++ output.captured y ∧
      ended.world.output = line.world.output ++ output.printed y := Stage.output_lineOn rfl hOutput
  refine ⟨start, start.stage.close fault ⟨.nothing, [], []⟩ ended, v.launch_builtin output k true hBuiltin hLast.bare,
    hResult ▸ hRun, ?_, ?_, ?_, ?_, ?_⟩
  · have hLine : line.margin.board = first.margin.board := congrArg Line.board h.margin
    have hEnded : ended.board = .opened pipefail := Stage.board_lineOn.trans (hLine.trans hBoard)
    change (ended.board.complete true (fault.map (Failure.ofFault start.stage.shown []))).verdict = _
    rw [hEnded, Board.verdict_lone]
    rfl
  · have hLine : line.captured = [] := (congrArg Line.captured h.margin).trans hCaptured
    exact hEndCaptured.trans (by rw [hLine, List.nil_append])
  · exact (Stage.memory_lineOn ⟨t', rest, y⟩).1
  · have hLine : line.world.output = first.world.output := congrArg (·.world.output) h.margin
    exact hEndPrinted.trans (by rw [hLine])
  · exact Stage.aside_lineOn.trans (congrArg (·.world.aside) h.margin)

/-- How a pipeline fails whose last command, `c`, has written no log and ended with `fault`. -/
def reported (v : Invoker) (w : World) (c : Command) (fault : Fault) : Fault :=
  (Failure.ofFault (located (v.directory w) c.render) [] fault).toFault

variable (nested) in
/-- A pipeline of builtins that keep to their sheets, all but the last of which succeed, comes to what the last comes
to. -/
theorem runPipeline_row {p : Pipeline} {phase : Phase} {cs : List Command} {fault : Option Fault}
    (hp : p.commands = cs ++ [c]) (hOutput : output ≠ .consumer)
    (hRow : v.Row phase.world cs phase.world.memory phase.world.input t x)
    (hLast : v.Does phase.world c ⟨t, x, []⟩ fault ⟨t', rest, y⟩) :
    ∃ phase', v.runPipeline nested output p phase =
        .done (fault.map (v.reported phase.world c), output.captured y) phase' ∧
      phase'.world.memory = t' ∧ phase'.world.output = phase.world.output ++ output.printed y ∧
      phase'.world.aside = phase.world.aside := by
  obtain ⟨trace, hTraced⟩ := v.traced_eq p phase.world
  let first : Line := v.openLine p { phase with world := v.traced p phase.world }
  have hWorld : first.world = { phase.world with trace := trace } := hTraced
  have hAside : first.world.aside = phase.world.aside := by rw [hWorld]; rfl
  have hFirst : first.Arrives cs.length 0 phase.world.memory phase.world.input first := by
    refine ⟨rfl, by rw [hWorld], fun _ => by rw [hWorld], nofun, fun j _ hj => ?_, nofun⟩
    change (List.replicate (p.commands.length - 1) Feed.awaiting)[j]? = _
    rw [hp, List.length_append]
    simp [hj]
  obtain ⟨hFault, hSame, hTurn⟩ := (hRow.congr hAside).launches nested (n := cs.length) rfl hOutput rfl 0
  obtain ⟨hEnds, hArrives⟩ := hTurn first (by omega) hFirst
  obtain ⟨start, last, hLaunch, hRun, hVerdict, hCaptured, hFiles, hPrinted, hLastAside⟩ :=
    run_last nested hArrives rfl hOutput rfl rfl (hLast.congr hAside)
  have hStages : v.runStages nested output p first = .done (last.board.verdict.map Failure.toFault) last := by
    have hFront := @launchAll_front v nested output 0 cs c [] first (hRow.congr hAside).concurrent
    dsimp only at hFront
    rw [hFault, hSame] at hFront
    have hLaunched : v.launchAll nested output 0 [] (cs ++ [c]) first =
        (.complete ((v.launchFront output 0 cs first).starts.map (Launch.fresh nested)) (start.run nested), first) := by
      refine hFront.trans ?_
      unfold launchAll
      dsimp only
      rw [hLaunch]
      rfl
    unfold runStages
    rw [hp, hLaunched]
    dsimp only
    rw [hEnds.settle_eq]
    dsimp only
    rw [hRun]
    rfl
  refine ⟨closeLine { phase with world := v.traced p phase.world } last, ?_, hFiles, ?_, hLastAside.trans hAside⟩
  · have hDone : v.runPipeline nested output p phase = .done (last.board.verdict.map Failure.toFault, last.captured)
        (closeLine { phase with world := v.traced p phase.world } last) := by
      unfold runPipeline
      dsimp only
      rw [hStages]
      rfl
    rw [hDone, hVerdict, hCaptured, Option.map_map, hWorld]
    rfl
  · exact hPrinted.trans (by rw [hWorld])

end Invoker

end Pipework
