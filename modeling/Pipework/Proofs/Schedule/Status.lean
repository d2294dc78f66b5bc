import Mathlib.Data.List.Nodup
import Mathlib.Data.List.Perm.Basic
import Mathlib.Data.List.Range
import Pipework.Proofs.Schedule.Steady

/-!
# The status of a pipeline

Whatever the order in which the stages of a pipeline act and end, its status is a function of what is
launched and of the results in the order in which the stages end. The first command that cannot be
launched decides, and no later one is touched. If all are launched, the last stage decides, or with
pipefail the failure that came first.
-/

namespace Pipework

/-- The results of the stages that have ended, in the order in which they did. -/
def endings (events : List Event) : List (Nat × Option Failure) :=
  events.filterMap fun
    | .ended index result => some (index, result)
    | _ => none

@[simp] theorem endings_append (events more : List Event) :
    endings (events ++ more) = endings events ++ endings more := List.filterMap_append

theorem mem_endings {events : List Event} {i : Nat} {result : Option Failure} :
    (i, result) ∈ endings events ↔ .ended i result ∈ events := by
  unfold endings
  rw [List.mem_filterMap]
  constructor
  · rintro ⟨event, hEvent, hEnded⟩
    cases event with
    | ended index r =>
      cases hEnded
      exact hEvent
    | _ => cases hEnded
  · intro h
    exact ⟨_, h, rfl⟩

namespace Board

/-- One more stage of a pipeline of `n` commands has ended. -/
def record (n : Nat) (b : Board) (ending : Nat × Option Failure) : Board :=
  b.complete (decide (ending.1 + 1 = n)) ending.2

variable (n : Nat)

theorem pipefail_foldl_record (es : List (Nat × Option Failure)) (b : Board) :
    (es.foldl (record n) b).pipefail = b.pipefail := by
  induction es generalizing b with
  | nil => rfl
  | cons e es ih => exact ih _

theorem first_foldl_record (es : List (Nat × Option Failure)) (b : Board) :
    (es.foldl (record n) b).first = b.first.or (es.findSome? Prod.snd) := by
  induction es generalizing b with
  | nil => simp
  | cons e es ih =>
    rw [List.foldl_cons, ih, List.findSome?_cons]
    change (b.first.or e.2).or _ = _
    cases e.2 <;> simp

theorem last_foldl_record_of_not_mem {es : List (Nat × Option Failure)} (b : Board)
    (h : ∀ e ∈ es, e.1 + 1 ≠ n) : (es.foldl (record n) b).last = b.last := by
  induction es generalizing b with
  | nil => rfl
  | cons e es ih =>
    rw [List.foldl_cons, ih _ fun e' he' => h e' (List.mem_cons_of_mem e he')]
    simp [record, complete, h e List.mem_cons_self]

theorem last_foldl_record {es : List (Nat × Option Failure)} (b : Board) {i : Nat} {result : Option Failure}
    (hMem : (i, result) ∈ es) (hLast : i + 1 = n) (hNodup : (es.map Prod.fst).Nodup) :
    (es.foldl (record n) b).last = result := by
  induction es generalizing b with
  | nil => cases hMem
  | cons e es ih =>
    rw [List.map_cons, List.nodup_cons] at hNodup
    rw [List.foldl_cons]
    rcases List.mem_cons.mp hMem with hHere | hLater
    · have hOthers : ∀ e' ∈ es, e'.1 + 1 ≠ n := by
        intro e' he' hEq
        apply hNodup.1
        rw [← hHere]
        have hSame : e'.1 = i := by omega
        exact List.mem_map.mpr ⟨e', he', hSame⟩
      rw [last_foldl_record_of_not_mem n _ hOthers, ← hHere]
      simp [record, complete, hLast]
    · exact ih _ hLater hNodup.2

theorem last_foldl_record_of_success {es : List (Nat × Option Failure)} {b : Board} (hLast : b.last = none)
    (h : ∀ e ∈ es, e.2 = none) : (es.foldl (record n) b).last = none := by
  induction es generalizing b with
  | nil => exact hLast
  | cons e es ih =>
    refine ih ?_ fun e' he' => h e' (List.mem_cons_of_mem e he')
    simp [record, complete, h e List.mem_cons_self, hLast]

end Board

def Event.isCalm : Event → Bool
  | .launched _ | .acted _ | .ended _ none => true
  | .refused _ _ _ | .ended _ (some _) | .stopped => false

def Event.isRefusal : Event → Bool
  | .refused _ _ _ => true
  | _ => false

namespace Crew

/-- What is known of the crew of a pipeline of `n` commands that had the status `s` when it started, after
`events`. -/
structure Tally {S : Type} (n : Nat) (s : Line.Status) (events : List Event) (crew : Crew S) : Prop where
  count : crew.launched + crew.pending.length = n
  steady : ∀ w ∈ crew.workers, w.work.Steady
  isLast : ∀ w ∈ crew.workers, w.stage.isLast = decide (w.stage.index + 1 = n)
  stages : ((endings events).map Prod.fst ++ crew.workers.map (·.stage.index)).Perm (List.range crew.launched)
  board : crew.line.board = (endings events).foldl (Board.record n) s.board
  launches : ∀ i < crew.launched, .launched i ∈ events
  refused : crew.refusal.isSome = true → ∃ fault canceled, crew.refusal = some fault ∧
    .refused crew.launched fault canceled ∈ events
  reach : ∀ event ∈ events, ∀ i, event.stage? = some i →
    i < crew.launched ∨ crew.refusal.isSome = true ∧ i = crew.launched
  unrefused : ∀ event ∈ events, event.isRefusal = true → crew.refusal.isSome = true
  calm : s.board.first = none → (∀ event ∈ events, event.isCalm = true) →
    crew.line.board.first = none ∧ crew.line.canceled = s.canceled

variable {C : Calls} {v : Invoker} {output : Output} {mayCall : Prop} {n : Nat} {s : Line.Status}
  {events : List Event} {crew : Crew C.State}

theorem Tally.start {S : Type} (commands : List Command) (line : Line) :
    Tally (S := S) commands.length line.status [] (start commands line) := by
  constructor <;> simp +contextual [Crew.start, endings, Line.status]

theorem Tally.within (h : Tally n s events crew) (world : World) : Tally n s events (crew.within world) :=
  { h with }

theorem Tally.index_lt (h : Tally n s events crew) {w : Worker C.State} (hw : w ∈ crew.workers) :
    w.stage.index < crew.launched := by
  have hMem : w.stage.index ∈ (endings events).map Prod.fst ++ crew.workers.map (·.stage.index) :=
    List.mem_append_right _ (List.mem_map_of_mem hw)
  exact List.mem_range.mp (h.stages.mem_iff.mp hMem)

theorem Tally.index_inj (h : Tally n s events crew) : (crew.workers.map (·.stage.index)).Nodup :=
  (h.stages.nodup_iff.mpr List.nodup_range).sublist (List.sublist_append_right _ _)

theorem Tally.lt_of_mem_endings (h : Tally n s events crew) {i : Nat} {result : Option Failure}
    (hEnded : (i, result) ∈ endings events) : i < crew.launched := by
  have hMem : i ∈ (endings events).map Prod.fst ++ crew.workers.map (·.stage.index) :=
    List.mem_append_left _ (List.mem_map.mpr ⟨_, hEnded, rfl⟩)
  exact List.mem_range.mp (h.stages.mem_iff.mp hMem)

theorem Tally.not_mem_endings (h : Tally n s events crew) {w : Worker C.State} (hw : w ∈ crew.workers)
    (result : Option Failure) : (w.stage.index, result) ∉ endings events := by
  intro hEnded
  have hNodup := h.stages.nodup_iff.mpr List.nodup_range
  refine (List.nodup_append.mp hNodup).2.2 w.stage.index ?_ w.stage.index (List.mem_map_of_mem hw) rfl
  exact List.mem_map.mpr ⟨_, hEnded, rfl⟩

theorem Tally.ne_of_mem (h : Tally n s events crew) {before after : List (Worker C.State)} {w w' : Worker C.State}
    (hWorkers : crew.workers = before ++ w :: after) (hw' : w' ∈ before ++ after) :
    w'.stage.index ≠ w.stage.index := by
  have hNodup := h.index_inj
  rw [hWorkers, List.map_append, List.map_cons, List.nodup_middle] at hNodup
  intro hEq
  refine (List.nodup_cons.mp hNodup).1 ?_
  rw [← hEq, ← List.map_append]
  exact List.mem_map_of_mem hw'

theorem Tally.launch (h : Tally n s events crew) {c : Command} {rest : List Command} {start : Launch}
    {line : Line} (hPending : crew.pending = c :: rest) (hRefusal : crew.refusal = none)
    (hLaunch : v.launch output crew.launched rest.isEmpty c crew.line = (.ok start, line)) :
    Tally n s (events ++ [Event.launched crew.launched])
      { crew with
        line := line
        pending := rest
        launched := crew.launched + 1
        workers := crew.workers ++ [start.worker] } := by
  have hStatus := v.status_launch output crew.launched rest.isEmpty c crew.line
  obtain ⟨hIndex, hIsLast, -, -, -⟩ := v.stage_launch output crew.launched rest.isEmpty c crew.line
    (by rw [hLaunch])
  rw [hLaunch] at hStatus
  have hBoard : line.board = crew.line.board := congrArg Line.Status.board hStatus
  have hCanceled : line.canceled = crew.line.canceled := congrArg Line.Status.canceled hStatus
  have hCount : crew.launched + (rest.length + 1) = n := by simpa [hPending] using h.count
  exact {
    count := by simpa [Nat.add_assoc, Nat.add_comm 1] using hCount
    steady := List.forall_mem_append.mpr ⟨h.steady, by simp [Launch.worker, Work.Steady]⟩
    isLast := by
      refine List.forall_mem_append.mpr ⟨h.isLast, ?_⟩
      have hRest : rest.isEmpty = decide (crew.launched + 1 = n) := by
        rw [Bool.eq_iff_iff, List.isEmpty_iff, decide_eq_true_iff, ← List.length_eq_zero_iff]
        omega
      simpa [Launch.worker, hIsLast, hIndex] using hRest
    stages := by
      have hRange := h.stages.append_right [crew.launched]
      simpa [endings, Launch.worker, hIndex, List.range_succ, List.append_assoc] using hRange
    board := by simpa [endings, hBoard] using h.board
    launches := by
      have hLaunches := h.launches
      grind
    refused := by simp [hRefusal]
    reach := by
      have hReach := h.reach
      grind [Event.stage?]
    unrefused := by
      have hUnrefused := h.unrefused
      grind [Event.isRefusal]
    calm := by
      have hCalm := h.calm
      grind }

theorem Tally.refuse (h : Tally n s events crew) {c : Command} {isLast : Bool} {fault : Fault} {line : Line}
    (hLaunch : v.launch output crew.launched isLast c crew.line = (.error fault, line)) :
    Tally n s (events ++ [Event.refused crew.launched fault crew.line.canceled])
      { crew with line := { line with canceled := true }, refusal := some fault } := by
  have hStatus := v.status_launch output crew.launched isLast c crew.line
  rw [hLaunch] at hStatus
  have hBoard : line.board = crew.line.board := congrArg Line.Status.board hStatus
  exact {
    count := h.count
    steady := h.steady
    isLast := h.isLast
    stages := by simpa [endings] using h.stages
    board := by simpa [endings, hBoard] using h.board
    launches := fun i hi => List.mem_append_left _ (h.launches i hi)
    refused := fun _ => ⟨fault, crew.line.canceled, rfl, List.mem_append_right _ List.mem_cons_self⟩
    reach := by
      have hReach := h.reach
      grind [Event.stage?]
    unrefused := by simp
    calm := by simp [Event.isCalm] }

theorem Tally.act (h : Tally n s events crew) {before after : List (Worker C.State)} {w : Worker C.State}
    {work : Work C.State} {line : Line} (hWorkers : crew.workers = before ++ w :: after)
    (hActs : Acts C mayCall w.stage (.on w.work, crew.line) (.on work, line)) :
    Tally n s (events ++ [Event.acted w.stage.index])
      { crew with line := line, workers := before ++ { w with work := work } :: after } := by
  have hMem : w ∈ crew.workers := hWorkers ▸ List.mem_append_right before List.mem_cons_self
  have hSteady : work.Steady := hActs.steady (h.steady w hMem)
  have hStatus : line.status = crew.line.status := hActs.records (h.steady w hMem)
  have hBoard : line.board = crew.line.board := congrArg Line.Status.board hStatus
  have hCanceled : line.canceled = crew.line.canceled := congrArg Line.Status.canceled hStatus
  have hLt := h.index_lt hMem
  have hOthers : ∀ w' ∈ before ++ w :: after, w' ∈ crew.workers := fun w' hw' => hWorkers ▸ hw'
  exact {
    count := h.count
    steady := by
      have hAll := h.steady
      grind
    isLast := by
      have hAll := h.isLast
      grind
    stages := by simpa [endings, hWorkers] using h.stages
    board := by simpa [endings, hBoard] using h.board
    launches := fun i hi => List.mem_append_left _ (h.launches i hi)
    refused := by
      have hRefused := h.refused
      grind
    reach := by
      have hReach := h.reach
      grind [Event.stage?]
    unrefused := by
      have hUnrefused := h.unrefused
      grind [Event.isRefusal]
    calm := by
      have hCalm := h.calm
      grind }

theorem Tally.finish (h : Tally n s events crew) {before after : List (Worker C.State)} {w : Worker C.State}
    {result : Option Failure} {line : Line} (hWorkers : crew.workers = before ++ w :: after)
    (hActs : Acts C mayCall w.stage (.on w.work, crew.line) (.ended result, line)) :
    Tally n s (events ++ [Event.ended w.stage.index result])
      { crew with line := line, workers := before ++ after } := by
  have hMem : w ∈ crew.workers := hWorkers ▸ List.mem_append_right before List.mem_cons_self
  have hStatus : line.status = crew.line.status.ended w.stage.isLast result := hActs.records (h.steady w hMem)
  have hBoard : line.board = crew.line.board.complete w.stage.isLast result := congrArg Line.Status.board hStatus
  have hCanceled : line.canceled = (crew.line.canceled || line.board.cancels) := by
    rw [hBoard]
    exact congrArg Line.Status.canceled hStatus
  have hLt := h.index_lt hMem
  have hOthers : ∀ w' ∈ before ++ after, w' ∈ crew.workers := by
    intro w' hw'
    rw [hWorkers]
    exact List.append_sublist_append_left before |>.mpr (List.sublist_cons_self w after) |>.subset hw'
  exact {
    count := h.count
    steady := fun w' hw' => h.steady w' (hOthers w' hw')
    isLast := fun w' hw' => h.isLast w' (hOthers w' hw')
    stages := by
      refine List.Perm.trans ?_ h.stages
      simp only [endings_append, List.map_append, hWorkers, List.append_assoc]
      refine List.Perm.append_left _ ?_
      simpa [endings] using List.perm_middle.symm
    board := by
      rw [endings_append, List.foldl_append, ← h.board, hBoard, h.isLast w hMem]
      rfl
    launches := fun i hi => List.mem_append_left _ (h.launches i hi)
    refused := by
      have hRefused := h.refused
      grind
    reach := by
      have hReach := h.reach
      grind [Event.stage?]
    unrefused := by
      have hUnrefused := h.unrefused
      grind [Event.isRefusal]
    calm := by
      intro hFirst hAll
      rw [List.forall_mem_append] at hAll
      obtain ⟨hNone, hSame⟩ := h.calm hFirst hAll.1
      cases result with
      | none =>
        have hBoardFirst : line.board.first = none := by simp [hBoard, Board.complete, hNone]
        exact ⟨hBoardFirst, by simp [hCanceled, Board.cancels, hBoardFirst, hSame]⟩
      | some failure => exact absurd (hAll.2 _ List.mem_cons_self) Bool.false_ne_true }

theorem Tally.stop (h : Tally n s events crew) :
    Tally n s (events ++ [Event.stopped]) { crew with line := crew.line.stop } where
  count := h.count
  steady := h.steady
  isLast := h.isLast
  stages := by simpa [endings] using h.stages
  board := by
    rw [endings_append]
    exact h.board.trans (congrArg _ (List.append_nil _).symm)
  launches i hi := List.mem_append_left _ (h.launches i hi)
  refused := by
    have hRefused := h.refused
    grind
  reach := by
    have hReach := h.reach
    grind [Event.stage?]
  unrefused := by
    have hUnrefused := h.unrefused
    grind [Event.isRefusal]
  calm := by simp [Event.isCalm]

theorem Tally.step (h : Tally n s events crew) {event : Event} {crew' : Crew C.State}
    (hStep : Step v output C mayCall crew event crew') : Tally n s (events ++ [event]) crew' := by
  cases hStep with
  | launch hPending hRefusal hOrder hLaunch => exact h.launch hPending hRefusal hLaunch
  | refuse hPending hRefusal hOrder hLaunch => exact h.refuse hLaunch
  | act hWorkers hActs => exact h.act hWorkers hActs
  | finish hWorkers hActs => exact h.finish hWorkers hActs
  | stop => exact h.stop

theorem Course.tally {more : List Event} {last : Crew C.State} (hCourse : Course v output C mayCall crew more last)
    (h : Tally n s events crew) : Tally n s (events ++ more) last := by
  induction hCourse generalizing events with
  | nil => simpa using h
  | step hStep hRest ih => simpa using ih (h.step hStep)
  | outside world hRest ih => exact ih (h.within world)

section Verdict

variable {pipefail : Bool} (h : Tally n s events crew) (hBoard : s.board = .opened pipefail)

include h hBoard

theorem Tally.verdict_of_off (hOff : pipefail = false) (hRefusal : crew.refusal = none) {i : Nat}
    {result : Option Failure} (hMem : (i, result) ∈ endings events) (hLast : i + 1 = n) :
    crew.verdict = result.map Failure.toFault := by
  have hNodup : ((endings events).map Prod.fst).Nodup :=
    (h.stages.nodup_iff.mpr List.nodup_range).sublist (List.sublist_append_left _ _)
  have hPipefail : crew.line.board.pipefail = false := by
    rw [h.board, Board.pipefail_foldl_record, hBoard, hOff]
    rfl
  have hResult : crew.line.board.last = result := by
    rw [h.board]
    exact Board.last_foldl_record n s.board hMem hLast hNodup
  simp [verdict, hRefusal, Board.verdict, hPipefail, hResult]

theorem Tally.verdict_of_on (hOn : pipefail = true) (hRefusal : crew.refusal = none) :
    crew.verdict = ((endings events).findSome? Prod.snd).map Failure.toFault := by
  have hPipefail : crew.line.board.pipefail = true := by
    rw [h.board, Board.pipefail_foldl_record, hBoard, hOn]
    rfl
  have hFirst : crew.line.board.first = (endings events).findSome? Prod.snd := by
    rw [h.board, Board.first_foldl_record, hBoard]
    rfl
  simp only [verdict, hRefusal, Board.verdict, hPipefail, hFirst, if_true, Option.none_or]
  cases hSome : (endings events).findSome? Prod.snd with
  | some failure => rfl
  | none =>
    have hLast : crew.line.board.last = none := by
      rw [h.board]
      exact Board.last_foldl_record_of_success n (by rw [hBoard]; rfl) (List.findSome?_eq_none_iff.mp hSome)
    rw [hLast]
    rfl

end Verdict

theorem Tally.perm_of_isOver (h : Tally n s events crew) (hOver : crew.IsOver) (hRefusal : crew.refusal = none) :
    ((endings events).map Prod.fst).Perm (List.range n) := by
  obtain ⟨hWorkers, hPending | hSome⟩ := hOver
  · have hAll : crew.launched = n := by simpa [hPending] using h.count
    simpa [hWorkers, hAll] using h.stages
  · rw [hRefusal] at hSome
    cases hSome

def failing (text : String) : Command := ⟨["fail", text], [], []⟩

/-- Two failing commands at the start of a script that sets pipefail. -/
def failures : Pipeline := ⟨[failing "a", failing "b"], false, "", 1⟩

def failuresPhase : Invoker.Phase := ⟨.bench [(pipefailVar, "1")], .opened, false, false⟩

/-- Of two stages that fail, the last may end first. -/
theorem course_failures :
    ∃ crew, Course .bench .capture .tooDeep False
        (start failures.commands (Invoker.bench.openLine failures failuresPhase))
        [.launched 0, .launched 1, .ended 1 (some (.ofFault "fail b" [] (.plain "b"))),
          .ended 0 (some (.ofFault "fail a" [] (.plain "a")))] crew ∧ crew.IsOver := by
  let line := Invoker.bench.openLine failures failuresPhase
  let launch (index : Nat) (isLast : Bool) (text : String) : Launch :=
    Invoker.bench.builtinLaunch .capture index isLast (failing text) line (.concurrent Builtin.fail)
  let first : Worker Calls.tooDeep.State := (launch 0 false "a").worker
  let second : Worker Calls.tooDeep.State := (launch 1 true "b").worker
  let line' := second.stage.close (some (.plain "b")) ⟨.nothing, [], []⟩ line
  have hFirst : Step .bench .capture .tooDeep False (start failures.commands line) (.launched 0)
      ⟨line, [failing "b"], 1, [first], none⟩ :=
    .launch rfl rfl (by simp [start]) (Invoker.bench.launch_builtin .capture 0 false rfl rfl)
  have hSecond : Step .bench .capture .tooDeep False ⟨line, [failing "b"], 1, [first], none⟩ (.launched 1)
      ⟨line, [], 2, [first, second], none⟩ :=
    .launch rfl rfl (List.forall_mem_singleton.mpr rfl) (Invoker.bench.launch_builtin .capture 1 true rfl rfl)
  have hSecondOver : Acts .tooDeep False second.stage (.on second.work, line)
      (.ended (some (.ofFault "fail b" [] (.plain "b"))), line') := .finish
  have hFirstOver : Acts .tooDeep False first.stage (.on first.work, line')
      (.ended (some (.ofFault "fail a" [] (.plain "a"))),
        first.stage.close (some (.plain "a")) ⟨.nothing, [], []⟩ line') := .finish
  have hThird := @Step.finish .bench .capture _ _ ⟨line, [], 2, [first, second], none⟩ [first] [] second _ _ rfl
    hSecondOver
  have hFourth := @Step.finish .bench .capture _ _ ⟨line', [], 2, [first], none⟩ [] [] first _ _ rfl hFirstOver
  exact ⟨_, .step hFirst (.step hSecond (.step hThird (.step hFourth .nil))), rfl, .inl rfl⟩

/-- The status of a pipeline, whatever the order in which its stages act and end. -/
theorem Course.status {p : Pipeline} {phase : Invoker.Phase}
    (hCourse : Course v output C mayCall (start p.commands (v.openLine p phase)) events crew)
    (hOver : crew.IsOver) :
    (∃ i fault canceled, .refused i fault canceled ∈ events ∧ crew.verdict = some fault ∧
      (∀ j < i, .launched j ∈ events) ∧ ∀ event ∈ events, ∀ j, event.stage? = some j → j ≤ i) ∨
    (∀ event ∈ events, event.isRefusal = false) ∧
      ((endings events).map Prod.fst).Perm (List.range p.commands.length) ∧
      (v.flag phase.world pipefailVar = false → ∀ i result, i + 1 = p.commands.length →
        .ended i result ∈ events → crew.verdict = result.map Failure.toFault) ∧
      (v.flag phase.world pipefailVar = true →
        (crew.verdict = none ↔ ∀ i result, .ended i result ∈ events → result = none) ∧
        ∀ before after i failure, events = before ++ .ended i (some failure) :: after →
          (∀ j result, .ended j result ∈ before → result = none) → crew.verdict = some failure.toFault) := by
  have h := hCourse.tally (Tally.start p.commands (v.openLine p phase))
  rw [List.nil_append] at h
  have hBoard : (v.openLine p phase).status.board = .opened (v.flag phase.world pipefailVar) := rfl
  cases hRefusal : crew.refusal with
  | some fault =>
    left
    obtain ⟨fault', canceled, hFault, hMem⟩ := h.refused (by rw [hRefusal]; rfl)
    refine ⟨crew.launched, fault', canceled, hMem, by simp [verdict, hFault], h.launches, ?_⟩
    intro event hEvent j hStage
    rcases h.reach event hEvent j hStage with hLt | ⟨-, hEq⟩
    · exact hLt.le
    · exact hEq.le
  | none =>
    right
    refine ⟨?_, h.perm_of_isOver hOver hRefusal, ?_, ?_⟩
    · intro event hEvent
      by_contra hIs
      have hSome := h.unrefused event hEvent (by simpa using hIs)
      rw [hRefusal] at hSome
      cases hSome
    · intro hOff i result hLast hEnded
      exact h.verdict_of_off hBoard hOff hRefusal (mem_endings.mpr hEnded) hLast
    · intro hOn
      have hVerdict := h.verdict_of_on hBoard hOn hRefusal
      constructor
      · rw [hVerdict, Option.map_eq_none_iff, List.findSome?_eq_none_iff]
        constructor
        · intro hAll i result hEnded
          exact hAll _ (mem_endings.mpr hEnded)
        · rintro hAll ⟨i, result⟩ hMem
          exact hAll i result (mem_endings.mp hMem)
      · rintro before after i failure rfl hBefore
        have hNone : (endings before).findSome? Prod.snd = none := by
          rw [List.findSome?_eq_none_iff]
          rintro ⟨j, result⟩ hMem
          exact hBefore j result (mem_endings.mp hMem)
        rw [hVerdict, endings_append, List.findSome?_append, hNone]
        rfl

theorem status_failures :
    ∃ events crew, Course .bench .capture .tooDeep False
        (start failures.commands (Invoker.bench.openLine failures failuresPhase)) events crew ∧
      crew.IsOver ∧ crew.verdict = some (Failure.ofFault "fail b" [] (.plain "b")).toFault := by
  obtain ⟨crew, hCourse, hOver⟩ := course_failures
  refine ⟨_, crew, hCourse, hOver, ?_⟩
  obtain ⟨_, _, _, hRefused, -⟩ | ⟨-, -, -, hOn⟩ := Course.status hCourse hOver
  · simp at hRefused
  · exact (hOn rfl).2 [.launched 0, .launched 1] _ 1 _ rfl (by simp)

theorem Course.append_inv {before after : List Event} {last : Crew C.State}
    (h : Course v output C mayCall crew (before ++ after) last) :
    ∃ mid, Course v output C mayCall crew before mid ∧ Course v output C mayCall mid after last := by
  generalize hEvents : before ++ after = all at h
  induction h generalizing before with
  | nil =>
    obtain ⟨rfl, rfl⟩ := List.append_eq_nil_iff.mp hEvents
    exact ⟨_, .nil, .nil⟩
  | step hStep hRest ih =>
    cases before with
    | nil =>
      rw [List.nil_append] at hEvents
      subst hEvents
      exact ⟨_, .nil, .step hStep hRest⟩
    | cons event before =>
      obtain ⟨rfl, hTail⟩ := List.cons_eq_cons.mp hEvents
      obtain ⟨mid, hBefore, hAfter⟩ := ih hTail
      exact ⟨mid, .step hStep hBefore, hAfter⟩
  | outside world hRest ih =>
    obtain ⟨mid, hBefore, hAfter⟩ := ih hEvents
    exact ⟨mid, .outside world hBefore, hAfter⟩

theorem exists_first_of_not_calm {events : List Event} (h : ∃ event ∈ events, event.isCalm = false) :
    ∃ before event after, events = before ++ event :: after ∧ event.isCalm = false ∧
      ∀ earlier ∈ before, earlier.isCalm = true := by
  induction events with
  | nil =>
    obtain ⟨event, hMem, -⟩ := h
    cases hMem
  | cons head events ih =>
    cases hHead : head.isCalm with
    | false => exact ⟨[], head, events, rfl, hHead, by simp⟩
    | true =>
      obtain ⟨event, hMem, hCalm⟩ := h
      have hLater : event ∈ events := by
        rcases List.mem_cons.mp hMem with rfl | hMem
        · rw [hHead] at hCalm
          cases hCalm
        · exact hMem
      obtain ⟨before, first, after, rfl, hFirst, hBefore⟩ := ih ⟨event, hLater, hCalm⟩
      exact ⟨head :: before, first, after, rfl, hFirst, List.forall_mem_cons.mpr ⟨hHead, hBefore⟩⟩

/-- With pipefail, a stage that failed while nothing had stopped the pipeline is blamed, provided that all
commands could be launched. -/
theorem Course.blame {p : Pipeline} {phase : Invoker.Phase}
    (hCourse : Course v output C mayCall (start p.commands (v.openLine p phase)) events crew)
    (hPipefail : v.flag phase.world pipefailVar = true) (hFresh : phase.canceled = false)
    (hOutside : .stopped ∉ events) (hLaunched : ∀ event ∈ events, event.isRefusal = false)
    (hFails : ∃ i failure, .ended i (some failure) ∈ events) :
    ∃ before after mid i failure, events = before ++ .ended i (some failure) :: after ∧
      Course v output C mayCall (start p.commands (v.openLine p phase)) before mid ∧
      mid.line.canceled = false ∧ Course v output C mayCall mid (.ended i (some failure) :: after) crew ∧
      crew.verdict = some failure.toFault := by
  obtain ⟨i₀, failure₀, hFails⟩ := hFails
  obtain ⟨before, event, after, hEvents, hEvent, hBefore⟩ := exists_first_of_not_calm ⟨_, hFails, rfl⟩
  obtain ⟨mid, hFirst, hSecond⟩ := Course.append_inv (hEvents ▸ hCourse)
  have hStart : Tally p.commands.length (v.openLine p phase).status [] (start p.commands (v.openLine p phase)) :=
    Tally.start (S := C.State) p.commands (v.openLine p phase)
  have hMid := hFirst.tally hStart
  have hCalm : mid.line.canceled = false := ((hMid.calm rfl hBefore).2).trans hFresh
  have hMem : event ∈ events := hEvents ▸ List.mem_append_right before List.mem_cons_self
  -- The first event that could have stopped the pipeline is the failure of a stage.
  obtain ⟨i, failure, rfl⟩ : ∃ i failure, event = .ended i (some failure) := by
    cases event with
    | launched index => cases hEvent
    | refused index fault canceled => cases hLaunched _ hMem
    | acted index => cases hEvent
    | ended index result =>
      cases result with
      | none => cases hEvent
      | some failure => exact ⟨index, failure, rfl⟩
    | stopped => exact absurd hMem hOutside
  refine ⟨before, after, mid, i, failure, hEvents, hFirst, hCalm, hSecond, ?_⟩
  have h := hCourse.tally hStart
  rw [List.nil_append] at h
  have hRefusal : crew.refusal = none := by
    cases hSome : crew.refusal with
    | none => rfl
    | some fault =>
      obtain ⟨fault, canceled, -, hRefused⟩ := h.refused (by rw [hSome]; rfl)
      cases hLaunched _ hRefused
  have hNone : (endings before).findSome? Prod.snd = none := by
    rw [List.findSome?_eq_none_iff]
    rintro ⟨j, result⟩ hEnded
    cases result with
    | none => rfl
    | some failure => exact absurd (hBefore _ (mem_endings.mp hEnded)) Bool.false_ne_true
  rw [h.verdict_of_on rfl hPipefail hRefusal, hEvents, endings_append, List.findSome?_append, hNone]
  rfl

theorem blame_failures :
    ∃ events crew, Course .bench .capture .tooDeep False
        (start failures.commands (Invoker.bench.openLine failures failuresPhase)) events crew ∧
      ∃ before after i failure, events = before ++ .ended i (some failure) :: after ∧
        crew.verdict = some failure.toFault := by
  obtain ⟨crew, hCourse, -⟩ := course_failures
  obtain ⟨before, after, -, i, failure, hEvents, -, -, -, hVerdict⟩ :=
    Course.blame hCourse rfl rfl (by simp) (by simp [Event.isRefusal])
      ⟨1, _, List.mem_cons_of_mem _ (List.mem_cons_of_mem _ List.mem_cons_self)⟩
  exact ⟨_, crew, hCourse, before, after, i, failure, hEvents, hVerdict⟩

end Crew

end Pipework
