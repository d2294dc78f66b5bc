import Pipework.Proofs.Flags.Script
import Pipework.Proofs.Splice.Cat

/-!
# Putting a `cat` into a pipeline

A pipeline whose stages but the last end in their turn comes to the same with a `cat` between any two of them. The
stages before the `cat` do what they do without it, those after it find the same in their pipes, and the `cat` itself
never fails. This is so whether the pipeline is launched as a whole or a command cannot be launched.
-/

namespace Pipework

/-- The stages of a pipeline that go on together, and the line in which they do. -/
def Launched.underway : Launched × Line → List Activity × Line
  | (.aborted _ acts, line) => (acts, { line with canceled := true })
  | (.complete acts _, line) => (acts, line)

namespace Invoker

open Activity

variable {v : Invoker} {nested : Nested} {output : Output} {ts : Bytes × Bytes}

theorem conclude_aborted {starts : List Launch} {line : Line} (fault : Fault)
    (h : EndInTurn nested starts { line with canceled := true }) :
    conclude (.aborted fault (starts.map (Launch.fresh nested)), line) =
      .done (some fault) (starts.foldl (Launch.leave nested) { line with canceled := true }) := by
  unfold conclude
  dsimp only
  rw [h.settle_eq]
  rfl

theorem conclude_complete {starts : List Launch} {line : Line} (last : Line → Run Line Unit)
    (h : EndInTurn nested starts line) :
    conclude (.complete (starts.map (Launch.fresh nested)) last, line) =
      (drive [] (last (starts.foldl (Launch.leave nested) line))).bind fun _ line =>
        .done (line.board.verdict.map Failure.toFault) line := by
  unfold conclude
  dsimp only
  rw [h.settle_eq]

/-- If the stages `starts` end in their turn, so do `starts'` in a line beside theirs, and these leave one beside what
those leave; the pipe in between has the number `h` at first and `k` in the end. -/
def Accompany (ts : Bytes × Bytes) (nested : Nested) (h k n : Nat) (starts starts' : List Launch) : Prop :=
  ∀ line line' : Line, line.Beside ts (hole h) line' → line'.flow.Reaches n 0 → EndInTurn nested starts line →
    EndInTurn nested starts' line' ∧
      (starts.foldl (Launch.leave nested) line).Beside ts (hole k) (starts'.foldl (Launch.leave nested) line')

theorem Accompany.aborted {h k n : Nat} {starts starts' : List Launch} {line line' : Line}
    (hStarts : Accompany ts nested h k n starts starts') (fault : Fault) (hLine : line.Beside ts (hole h) line')
    (hReaches : line'.flow.Reaches n 0) (hEnds : EndInTurn nested starts { line with canceled := true }) :
    (conclude (.aborted fault (starts.map (Launch.fresh nested)), line)).Beside (Line.Beside ts (hole k)) Wait.Outward
      (conclude (.aborted fault (starts'.map (Launch.fresh nested)), line')) := by
  obtain ⟨hEnds', hLast⟩ := hStarts _ _ hLine.cancel hReaches.cancel hEnds
  rw [conclude_aborted fault hEnds, conclude_aborted fault hEnds']
  exact .done hLast

theorem Accompany.complete {h k n : Nat} {starts starts' : List Launch} {line line' : Line}
    (hStarts : Accompany ts nested h k n starts starts') (hNested : nested.Untraced) {start : Launch}
    (hShifts : Shifts (hole k) 1 start.stage.index) (hLine : line.Beside ts (hole h) line')
    (hReaches : line'.flow.Reaches n 0) (hEnds : EndInTurn nested starts line) :
    (conclude (.complete (starts.map (Launch.fresh nested)) (start.run nested), line)).Beside (Line.Beside ts (hole k))
      Wait.Outward
      (conclude (.complete (starts'.map (Launch.fresh nested)) ((start.further 1).run nested), line')) := by
  obtain ⟨hEnds', hLast⟩ := hStarts _ _ hLine hReaches hEnds
  have hRun := start.run_beside (hole_injective k) hNested hShifts hLast
  rw [conclude_complete _ hEnds, conclude_complete _ hEnds']
  refine (drive_beside hRun .nil).bind fun _ line line' hLine => ?_
  rw [hLine.board]
  exact .done hLine

theorem launchFront_cat {index : Nat} {mid : List Command} {line : Line}
    (hCat : line.world.builtin? "cat" = some (.concurrent Builtin.cat)) :
    v.launchFront output index (.bareCat :: mid) line =
      (v.launchFront output (index + 1) mid line).onto [v.catLaunch output index line] := by
  rw [launchFront, v.launch_builtin output index false (c := .bareCat) hCat rfl]
  rfl

section Spliced

variable (hNested : nested.Untraced) {before mid : List Command} {line line' : Line}
  (h : line.Beside ts (hole before.length) line')

include hNested h

theorem launchFront_aborted {fault : Fault} (hFirst : (v.launchFront output 0 before line).fault = some fault) (n : Nat)
    (mid' : List Command) :
    let front := v.launchFront output 0 (before ++ mid) line
    let front' := v.launchFront output 0 (before ++ mid') line'
    front'.fault = front.fault ∧ front.line.Beside ts (hole before.length) front'.line ∧
      Accompany ts nested before.length before.length n front.starts front'.starts := by
  obtain ⟨hStarts, hFault, hLine⟩ := v.launchFront_beside output (d := 0) Iff.rfl before h
  have hFirst' : (v.launchFront output 0 before line').fault = some fault := hFault.trans hFirst
  rw [map_further_zero] at hStarts
  rw [launchFront_append_of_fault hFirst, launchFront_append_of_fault hFirst']
  refine ⟨hFault, hLine, fun l l' hl _ hEnds => ?_⟩
  have hShifts : ∀ s ∈ (v.launchFront output 0 before line).starts, Shifts (hole before.length) 0 s.stage.index := by
    intro s hs
    have hBounds := (v.launchFront_row output 0 before line).bounds s hs
    have hLength := (v.length_launchFront output 0 before line).1
    exact shifts_before (by omega)
  have hBoth := hEnds.beside (hole_injective _) hNested hShifts hl
  rw [map_further_zero] at hBoth
  rw [show (v.launchFront output 0 before line').starts = _ from hStarts]
  exact hBoth

theorem launchFront_spliced (hFirst : (v.launchFront output 0 before line).fault = none) (hBefore : before ≠ [])
    (hCat : line.world.builtin? "cat" = some (.concurrent Builtin.cat)) :
    let front := v.launchFront output 0 (before ++ mid) line
    let front' := v.launchFront output 0 (before ++ .bareCat :: mid) line'
    front'.fault = front.fault ∧ front.line.Beside ts (hole before.length) front'.line ∧
      Accompany ts nested before.length (before.length - 1) (before.length + mid.length + 1) front.starts
        front'.starts := by
  obtain ⟨hStarts, hFault, hLine⟩ := v.launchFront_beside output (d := 0) Iff.rfl before h
  have hFirst' : (v.launchFront output 0 before line').fault = none := hFault.trans hFirst
  have hLength := (v.length_launchFront output 0 before line).2 hFirst
  have hRow := v.launchFront_row output 0 before line
  have hNonempty : before.length ≠ 0 := mt List.length_eq_zero_iff.mp hBefore
  have hCat' : (v.launchFront output 0 before line').line.world.builtin? "cat" = some (.concurrent Builtin.cat) := by
    obtain ⟨t, -, hWorld⟩ := h.world
    rw [builtin_launchFront, hWorld]
    exact hCat
  have hFirst₁ : before.length + 1 = 0 ↔ before.length = 0 := by omega
  obtain ⟨hBack, hFault', hLine'⟩ := v.launchFront_beside output hFirst₁ mid hLine
  have hBackRow := v.launchFront_row output before.length mid (v.launchFront output 0 before line).line
  rw [map_further_zero] at hStarts
  rw [launchFront_append_of_none hFirst, launchFront_append_of_none hFirst', Nat.zero_add, launchFront_cat hCat']
  refine ⟨hFault', hLine', fun l l' hl hReaches hEnds => ?_⟩
  obtain ⟨hEnds', hLast⟩ := v.endInTurn_spliced output hNested hLength hRow hBackRow hNonempty
    (by omega) hl hReaches hEnds (v.launchFront output 0 before line').line
  have hSpliced : (((v.launchFront output (before.length + 1) mid (v.launchFront output 0 before line').line).onto
      [v.catLaunch output before.length (v.launchFront output 0 before line').line]).onto
        (v.launchFront output 0 before line').starts).starts = _ :=
    congrArg₂ (fun front back =>
      front ++ (v.catLaunch output before.length (v.launchFront output 0 before line').line :: back)) hStarts hBack
  rw [hSpliced]
  exact ⟨hEnds', hLast⟩

/-- Either way the stages of the two pipelines end together, if they end in their turn. -/
theorem launchFronts_accompany (hBefore : before ≠ [])
    (hCat : line.world.builtin? "cat" = some (.concurrent Builtin.cat))
    (output : Output) (mid : List Command) :
    let front := v.launchFront output 0 (before ++ mid) line
    let front' := v.launchFront output 0 (before ++ .bareCat :: mid) line'
    ∃ k, (front.fault = none → k + 1 = before.length) ∧ front'.fault = front.fault ∧
      front.line.Beside ts (hole before.length) front'.line ∧
        Accompany ts nested before.length k (before.length + mid.length + 1) front.starts front'.starts := by
  cases hFirst : (v.launchFront output 0 before line).fault with
  | some fault =>
    refine ⟨before.length, ?_, launchFront_aborted hNested h hFirst _ _⟩
    rw [launchFront_append_of_fault hFirst, hFirst]
    rintro ⟨⟩
  | none =>
    have hLength := List.length_pos_of_ne_nil hBefore
    exact ⟨before.length - 1, fun _ => by omega, launchFront_spliced hNested h hFirst hBefore hCat⟩

end Spliced

theorem Concurrent.spliced {before mid : List Command} {w w' : World} (h : Concurrent w (before ++ mid))
    (hWorld : w.Retraced ts w') (hCat : w.builtin? "cat" = some (.concurrent Builtin.cat)) :
    Concurrent w' (before ++ .bareCat :: mid) := by
  obtain ⟨t, -, rfl⟩ := hWorld
  intro c hc b hb
  rcases List.mem_append.mp hc with hc | hc
  · exact h c (List.mem_append_left mid hc) b hb
  · rcases List.mem_cons.mp hc with rfl | hc
    · have hCat' : w.builtin? "cat" = some b := hb
      rw [hCat] at hCat'
      cases hCat'
      rfl
    · exact h c (List.mem_append_right before hc) b hb

theorem launchAll_last (index : Nat) (acts : List Activity) (c : Command) (line : Line) :
    v.launchAll nested output index acts [c] line =
      match v.launch output index true c line with
      | (.error fault, line) => (.aborted fault acts, line)
      | (.ok start, line) => (.complete acts (start.run nested), line) := rfl

theorem launchLast_spliced (hNested : nested.Untraced) {h k n index : Nat} {starts starts' : List Launch}
    {line line' : Line} (hStarts : Accompany ts nested h k n starts starts') (hShifts : Shifts (hole k) 1 index)
    (c : Command) (hLine : line.Beside ts (hole h) line') (hReaches : line'.flow.Reaches n 0)
    (hEnds : let x := v.launchAll nested output index (starts.map (Launch.fresh nested)) [c] line
      (Activity.pass (Launched.underway x).1 (Launched.underway x).2).1 = []) :
    (conclude (v.launchAll nested output index (starts.map (Launch.fresh nested)) [c] line)).Beside
      (Line.Beside ts (hole k)) Wait.Outward
      (conclude (v.launchAll nested output (index + 1) (starts'.map (Launch.fresh nested)) [c] line')) := by
  obtain ⟨hStart, hLine₁⟩ := v.launch_alike output hShifts.first true c hLine
  rw [← v.flow_launch output (index + 1) true c] at hReaches
  rw [launchAll_last] at hEnds ⊢
  rw [launchAll_last]
  cases hLaunch : v.launch output index true c line with
  | mk reply line₁ =>
    cases hLaunch' : v.launch output (index + 1) true c line' with
    | mk reply' line₁' =>
      rw [hLaunch, hLaunch'] at hStart hLine₁
      rw [hLaunch'] at hReaches
      rw [hLaunch] at hEnds
      cases reply with
      | error fault =>
        obtain rfl : reply' = .error fault := hStart
        exact hStarts.aborted fault hLine₁ hReaches (.of_pass hEnds)
      | ok start =>
        obtain rfl : reply' = .ok (start.further 1) := hStart
        obtain ⟨hPlace, -⟩ := v.stage_launch output index true c line (by rw [hLaunch])
        exact hStarts.complete hNested (hPlace ▸ hShifts) hLine₁ hReaches (.of_pass hEnds)

theorem runStages_spliced (hNested : nested.Untraced) {before mid : List Command} {c : Command} (hBefore : before ≠ [])
    {line line' : Line} (hCat : line.world.builtin? "cat" = some (.concurrent Builtin.cat))
    (hConcurrent : Concurrent line.world (before ++ mid)) (h : line.Beside ts (hole before.length) line')
    (hReaches : line'.flow.Reaches (before.length + mid.length + 1) 0)
    (hEnds : let x := (v.launchAll nested output 0 [] (before ++ mid ++ [c]) line)
      (Activity.pass (Launched.underway x).1 (Launched.underway x).2).1 = []) :
    ∃ k, (conclude (v.launchAll nested output 0 [] (before ++ mid ++ [c]) line)).Beside (Line.Beside ts (hole k))
      Wait.Outward (conclude (v.launchAll nested output 0 [] (before ++ .bareCat :: mid ++ [c]) line')) := by
  have hConcurrent' : Concurrent line'.world (before ++ .bareCat :: mid) := hConcurrent.spliced h.world hCat
  obtain ⟨k, hk, hFault, hLine, hAccompany⟩ := launchFronts_accompany (v := v) hNested h hBefore hCat output mid
  rw [← v.flow_launchFront output 0 (before ++ .bareCat :: mid) line'] at hReaches
  rw [launchAll_front c hConcurrent] at hEnds ⊢
  rw [launchAll_front c hConcurrent']
  dsimp only [List.nil_append] at hEnds ⊢
  rw [hFault]
  refine ⟨k, ?_⟩
  -- A command that cannot be launched is the same in both pipelines, since the `cat` always can.
  cases hFront : (v.launchFront output 0 (before ++ mid) line).fault with
  | some fault =>
    rw [hFront] at hEnds
    exact hAccompany.aborted fault hLine hReaches (.of_pass hEnds)
  | none =>
    rw [hFront] at hEnds
    have hPlaces : 0 + (before ++ .bareCat :: mid).length = 0 + (before ++ mid).length + 1 := by
      simp only [List.length_append, List.length_cons]
      omega
    have hShifts : Shifts (hole k) 1 (0 + (before ++ mid).length) := by
      have hk := hk hFront
      have hPositive := List.length_pos_of_ne_nil hBefore
      rw [List.length_append]
      exact shifts_after (by omega)
    rw [hPlaces]
    exact launchLast_spliced hNested hAccompany hShifts c hLine hReaches hEnds

variable (v) in
theorem reaches_openLine (p : Pipeline) (phase : Phase) :
    (v.openLine p phase).flow.Reaches (p.commands.length - 1) 0 where
  before h := absurd rfl h
  after i _ hi := List.getElem?_replicate_of_lt hi
  broken i hi := absurd hi (List.not_mem_nil)
  cancels h := by simp [openLine, Line.flow, Board.opened, Board.cancels] at h

/-- No stage of the pipeline but the last holds up the others. None has to end before the next is launched, as a `cd`
has, which sets the directory in which all the others are launched. When the engine has gone on with each once, none of
those that were launched is left. -/
structure Terminating (v : Invoker) (nested : Nested) (output : Output) (p : Pipeline) (phase : Phase) : Prop where
  concurrent : Concurrent phase.world p.commands.dropLast
  ends : let x := Launched.underway (v.launchAll nested output 0 [] p.commands (v.firstLine p phase))
    (Activity.pass x.1 x.2).1 = []

variable (v nested output) in
/-- The stages that go on together are those before the last, as far as they could be launched. -/
theorem underway_launchAll {cs : List Command} (c : Command) {line : Line} (hConcurrent : Concurrent line.world cs)
    {n : Nat} (hReaches : line.flow.Reaches n 0) :
    ∃ line', Launched.underway (v.launchAll nested output 0 [] (cs ++ [c]) line) =
      ((v.launchFront output 0 cs line).starts.map (Launch.fresh nested), line') ∧ line'.flow.Reaches n 0 := by
  rw [← v.flow_launchFront output 0 cs line] at hReaches
  rw [launchAll_front c hConcurrent]
  dsimp only [List.nil_append]
  cases (v.launchFront output 0 cs line).fault with
  | some fault => exact ⟨_, rfl, hReaches.cancel⟩
  | none =>
    rw [← v.flow_launch output (0 + cs.length) true c] at hReaches
    dsimp only
    rw [launchAll_last]
    cases hLaunch : v.launch output (0 + cs.length) true c (v.launchFront output 0 cs line).line with
    | mk reply line' =>
      rw [hLaunch] at hReaches
      cases reply with
      | error fault => exact ⟨_, rfl, hReaches.cancel⟩
      | ok start => exact ⟨_, rfl, hReaches⟩

/-- The stages of a pipeline of builtins that terminate and whose files are in memory end in their turn. -/
theorem terminating_of_builtins {p : Pipeline} {phase : Phase} (hMemory : phase.world.inMemory = true)
    (hConcurrent : Concurrent phase.world p.commands.dropLast) (h : Plain phase.world p.commands.dropLast) :
    v.Terminating nested output p phase := by
  refine ⟨hConcurrent, ?_⟩
  rcases List.eq_nil_or_concat' p.commands with hNil | ⟨cs, c, hCommands⟩
  · rw [hNil]
    rfl
  · let line := v.firstLine p phase
    obtain ⟨trace, hTraced⟩ := v.traced_eq p phase.world
    have hWorld : line.world = { phase.world with trace := trace } := hTraced
    rw [hCommands, List.dropLast_concat] at hConcurrent h
    have hPlain : Plain line.world cs := by
      rw [hWorld]
      exact h
    have hConcurrent' : Concurrent line.world cs := by
      rw [hWorld]
      exact hConcurrent
    have hMemory' : line.world.inMemory = true := by
      rw [hWorld]
      exact hMemory
    have hCount : p.commands.length - 1 = cs.length := by rw [hCommands]; simp
    have hReaches : line.flow.Reaches cs.length 0 := hCount ▸ v.reaches_openLine p _
    have hRow := v.launchFront_row output 0 cs line
    have hLength := (v.length_launchFront output 0 cs line).1
    obtain ⟨line', hUnderway, hReaches'⟩ := v.underway_launchAll nested output c hConcurrent' hReaches
    have hEnds : EndInTurn nested (v.launchFront output 0 cs line).starts line' :=
      hRow.ends (launchFront_plain hPlain hMemory') hReaches' (by omega)
    rw [hCommands, hUnderway]
    dsimp only
    rw [hEnds.pass_eq]

theorem openLine_spliced {p : Pipeline} {before after : List Command} {phase phase' : Phase}
    (hCommands : p.commands = before ++ after) (hAfter : after ≠ []) (h : phase.Retraced ts phase') :
    (v.openLine p phase).Beside ts (hole before.length)
      (v.openLine { p with commands := before ++ .bareCat :: after } phase') := by
  obtain ⟨t, hTrace, rfl⟩ := h
  have hCount := List.length_pos_of_ne_nil hAfter
  have hLength : (before ++ Command.bareCat :: after).length - 1 = p.commands.length - 1 + 1 := by
    rw [hCommands, List.length_append, List.length_append, List.length_cons]
    omega
  refine .intro ⟨t, hTrace, rfl⟩ (fun i _ => ?_) fun i => rfl
  dsimp only [openLine]
  rw [hLength, hCommands, List.length_append, List.getElem?_replicate, List.getElem?_replicate]
  unfold hole
  grind

/-- What has been traced when the stages of `p` and those of `p'` start. -/
def records (v : Invoker) (p p' : Pipeline) (w : World) : Bytes × Bytes := ((v.traced p w).trace, (v.traced p' w).trace)

theorem Phase.retraced_records (p p' : Pipeline) (phase : Phase) :
    (phase.traced v p).Retraced (v.records p p' phase.world) (phase.traced v p') := by
  obtain ⟨t, hTraced⟩ := v.traced_eq p phase.world
  obtain ⟨t', hTraced'⟩ := v.traced_eq p' phase.world
  refine ⟨[], (List.append_nil _).symm, ?_⟩
  rw [List.append_nil]
  unfold Phase.traced records
  rw [hTraced, hTraced']
  rfl

theorem records_untraced {w : World} (h : v.flag w debugVar = false) (p p' : Pipeline) :
    v.records p p' w = (w.trace, w.trace) := by
  simp [records, traced, h]

theorem runPipeline_spliced (hNested : nested.Untraced) {p : Pipeline} {before after : List Command} {phase : Phase}
    (hCommands : p.commands = before ++ after) (hBefore : before ≠ []) (hAfter : after ≠ [])
    (hCat : phase.world.builtin? "cat" = some (.concurrent Builtin.cat))
    (hTerminating : v.Terminating nested output p phase) :
    let spliced : Pipeline := { p with commands := before ++ .bareCat :: after }
    (v.runPipeline nested output p phase).Beside (Phase.Retraced (v.records p spliced phase.world)) Wait.Outward
      (v.runPipeline nested output spliced phase) := by
  obtain ⟨mid, c, rfl⟩ := (List.eq_nil_or_concat' after).resolve_left hAfter
  intro spliced
  let line := v.openLine p (phase.traced v p)
  let line' := v.openLine spliced (phase.traced v spliced)
  let ts := v.records p spliced phase.world
  have hPhase : (phase.traced v p).Retraced ts (phase.traced v spliced) := phase.retraced_records p spliced
  have hOpen : line.Beside ts (hole before.length) line' := openLine_spliced hCommands hAfter hPhase
  obtain ⟨trace, hTraced⟩ := v.traced_eq p phase.world
  have hWorld : line.world = { phase.world with trace := trace } := hTraced
  have hCat' : line.world.builtin? "cat" = some (.concurrent Builtin.cat) := by
    rw [hWorld]
    exact hCat
  have hCommands' : p.commands = before ++ mid ++ [c] := by rw [hCommands, List.append_assoc]
  have hConcurrent : Concurrent line.world (before ++ mid) := by
    have hFront := hTerminating.concurrent
    rw [hCommands', List.dropLast_concat] at hFront
    rw [hWorld]
    exact hFront
  have hCount : spliced.commands.length - 1 = before.length + mid.length + 1 := by
    simp only [spliced, List.length_append, List.length_cons, List.length_nil]
    omega
  have hReaches : line'.flow.Reaches (before.length + mid.length + 1) 0 := hCount ▸ v.reaches_openLine spliced _
  have hEnds := hTerminating.ends
  rw [hCommands'] at hEnds
  obtain ⟨k, hStages⟩ := runStages_spliced hNested hBefore hCat' hConcurrent hOpen hReaches hEnds
  refine runPipeline_of_runStages (e := hole k) hPhase ?_
  rw [runStages_eq, runStages_eq, hCommands']
  rw [show before ++ Command.bareCat :: mid ++ [c] = spliced.commands by simp [spliced]] at hStages
  exact hStages

/-- A `cat` between two stages of a pipeline is not noticed: whatever the pipeline comes to, it comes to the same with
the `cat` and leaves the same behind. If pipelines are traced, the record of this one shows the `cat`. -/
theorem run_unnoticed {programs : Host.Programs} {depth : Nat} {p : Pipeline} {before after : List Command}
    {phase : Phase} (hCommands : p.commands = before ++ after) (hBefore : before ≠ []) (hAfter : after ≠ [])
    (hCat : phase.world.builtin? "cat" = some (.concurrent Builtin.cat))
    (hTerminating : v.Terminating (nestedRun programs depth) output p phase) (story : List (Wait × Signal))
    (result : Option Fault × Bytes) :
    let spliced : Pipeline := { p with commands := before ++ .bareCat :: after }
    let nested := nestedRun programs depth
    (∀ last', (v.runPipeline nested output spliced phase).Yields Phase.signaled story result last' ↔
      ∃ last, (v.runPipeline nested output p phase).Yields Phase.signaled story result last ∧
        last.Retraced (v.records p spliced phase.world) last') ∧
    (v.flag phase.world debugVar = false → ∀ last,
      (v.runPipeline nested output spliced phase).Yields Phase.signaled story result last ↔
        (v.runPipeline nested output p phase).Yields Phase.signaled story result last) := by
  intro spliced nested
  let ts := v.records p spliced phase.world
  have hBeside : (v.runPipeline nested output p phase).Beside (Phase.Retraced ts) Wait.Outward
      (v.runPipeline nested output spliced phase) :=
    runPipeline_spliced (nestedRun_untraced programs depth) hCommands hBefore hAfter hCat hTerminating
  have hBack : (v.runPipeline nested output spliced phase).Beside (Phase.Retraced ts.swap) Wait.Outward
      (v.runPipeline nested output p phase) :=
    hBeside.symm (fun _ _ h => h.symm) (fun _ _ h => h.symm) fun _ _ h => h.symm
  have hSame (why why' : Wait) (h : Wait.Outward why why') : why' = why := h.1
  have hSignaled (ts : Bytes × Bytes) (signal : Signal) (state state' : Phase) (h : state.Retraced ts state') :
      (state.signaled signal).Retraced ts (state'.signaled signal) := by
    obtain ⟨t, hTrace, rfl⟩ := h
    exact ⟨t, hTrace, rfl⟩
  have hIff (last' : Phase) : (v.runPipeline nested output spliced phase).Yields Phase.signaled story result last' ↔
      ∃ last, (v.runPipeline nested output p phase).Yields Phase.signaled story result last ∧
        last.Retraced ts last' := by
    constructor
    · intro h
      obtain ⟨last, hYields, hLast⟩ := hBack.yields hSame (hSignaled _) h
      exact ⟨last, hYields, hLast.symm⟩
    · rintro ⟨last, h, hLast⟩
      obtain ⟨last'', hYields, hLast'⟩ := hBeside.yields hSame (hSignaled _) h
      rwa [← hLast.unique hLast']
  refine ⟨hIff, fun hFlag last => ?_⟩
  have hRecords : ts = (phase.world.trace, phase.world.trace) := records_untraced hFlag p spliced
  constructor
  · intro h
    obtain ⟨last', hYields, hLast⟩ := (hIff last).mp h
    rw [hRecords, Phase.retraced_self] at hLast
    rwa [hLast.1]
  · intro h
    obtain ⟨last', hYields, hLast⟩ := hBeside.yields hSame (hSignaled _) h
    rw [hRecords, Phase.retraced_self] at hLast
    rwa [← hLast.1]

theorem run_unnoticed_upcase :
    let w : World := { World.bench [] with builtins := Builtin.text ++ Builtin.standard }
    let before : List Command := [⟨["echo", "hi"], [], []⟩, ⟨["tee", "f"], [], []⟩]
    let after : List Command := [⟨["tr", "a-z", "A-Z"], [], []⟩]
    ∃ last : Phase, last.world.memory = ⟨[(["f"], .file (utf8 "hi\n") false)]⟩ ∧
      (bench.runPipeline (nestedRun [] 0) .capture ⟨before ++ after, false, "", 0⟩ ⟨w, .opened, false, false⟩).Yields
        Phase.signaled [] (none, utf8 "HI\n") last ∧
      (bench.runPipeline (nestedRun [] 0) .capture ⟨before ++ .bareCat :: after, false, "", 0⟩
        ⟨w, .opened, false, false⟩).Yields Phase.signaled [] (none, utf8 "HI\n") last := by
  intro w before after
  let p : Pipeline := ⟨before ++ after, false, "", 0⟩
  let phase : Phase := ⟨w, .opened, false, false⟩
  let run := bench.runPipeline (nestedRun [] 0) .capture p phase
  have hConcurrent : Concurrent w before := concurrent_of_standard rfl (by decide +kernel)
  have hPlain : Plain w before := plain_of_standard rfl (by decide +kernel)
  have hTerminating : bench.Terminating (nestedRun [] 0) .capture p phase :=
    terminating_of_builtins rfl hConcurrent hPlain
  have hDone : run.isDone = true := by decide +kernel
  have hResult : run.finish.1 = (none, utf8 "HI\n") := by decide +kernel
  have hMemory : run.finish.2.world.memory = ⟨[(["f"], .file (utf8 "hi\n") false)]⟩ := by decide +kernel
  have hFirst : run.Yields Phase.signaled [] _ _ := Run.yields_finish hDone
  rw [hResult] at hFirst
  have hCommands : p.commands = before ++ after := rfl
  obtain ⟨-, hUntraced⟩ := bench.run_unnoticed hCommands (by simp [before]) (by simp [after]) rfl hTerminating []
    (none, utf8 "HI\n")
  exact ⟨_, hMemory, hFirst, (hUntraced (by decide +kernel) _).mpr hFirst⟩

end Invoker

end Pipework
