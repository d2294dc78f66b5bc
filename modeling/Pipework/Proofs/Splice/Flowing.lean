import Mathlib.Data.List.Nodup
import Pipework.Proofs.Splice.Launches
import Pipework.Proofs.Splice.Pose

/-!
# What flows through a pipeline in an orderly course

The stages of a pipeline of plain builtins leave one after the other in an orderly course. While one is at work the
pipe after it is open, and it is not broken; the pipe after one that has left holds all that the stage has written, and
an end. Each step of such a course is that a command is launched, that a stage begins to wait, or that one goes on as
its pose says.
-/

namespace Pipework

/-- What is known of the `n` pipes of a pipeline if just the stages of which `left` holds have left it. -/
structure Line.Flows (n : Nat) (left : Nat → Prop) (site : (String → Option Builtin) × Bool) (l : Line) : Prop where
  length : l.pipes.length = n
  full : ∀ j < n, left j → ∃ data, l.pipes[j]? = some (.ofBytes data)
  filling : ∀ j < n, ¬left j → ∃ data, l.pipes[j]? = some (.add .awaiting data)
  broken : ∀ i ∈ l.broken, left (i + 1)
  cancels : l.board.cancels = true → l.canceled = true
  site : l.world.site = site

namespace Line.Flows

variable {n : Nat} {left left' : Nat → Prop} {site : (String → Option Builtin) × Bool} {line : Line}

theorem congr (h : line.Flows n left site) (hLeft : ∀ j, left' j ↔ left j) : line.Flows n left' site := by
  rwa [show left' = left from funext fun j => propext (hLeft j)]

theorem settles (h : line.Flows n left site) {j : Nat} (hj : j < n) : (line.pipe j).Settles := by
  by_cases hLeft : left j
  · obtain ⟨data, hData⟩ := h.full j hj hLeft
    exact ⟨data, .inl (by rw [Line.pipe, List.getD_eq_getElem?_getD, hData, Option.getD_some])⟩
  · obtain ⟨data, hData⟩ := h.filling j hj hLeft
    exact ⟨data, .inr (by rw [Line.pipe, List.getD_eq_getElem?_getD, hData, Option.getD_some])⟩

theorem pipe_of_left (h : line.Flows n left site) {j : Nat} (hj : j < n) (hLeft : left j) :
    ∃ data, line.pipe j = .ofBytes data := by
  obtain ⟨data, hData⟩ := h.full j hj hLeft
  exact ⟨data, by rw [Line.pipe, List.getD_eq_getElem?_getD, hData, Option.getD_some]⟩

/-- A pipe has ended only if the stage before it has left. -/
theorem left_of_ended (h : line.Flows n left site) {j : Nat} (hj : j < n) (hEnded : (line.pipe j).ended = true) :
    left j := by
  by_contra hLeft
  obtain ⟨data, hData⟩ := h.filling j hj hLeft
  rw [Line.pipe, List.getD_eq_getElem?_getD, hData] at hEnded
  cases hEnded

theorem setPipe (h : line.Flows n left site) {i : Nat} (f : Feed) (hFull : left i → ∃ data, f = .ofBytes data)
    (hFilling : ¬left i → ∃ data, f = .add .awaiting data) : (line.setPipe i f).Flows n left site where
  length := by rw [Line.setPipe, List.length_set, h.length]
  full j hj hLeft := by
    by_cases hi : i = j
    · subst hi
      obtain ⟨data, rfl⟩ := hFull hLeft
      exact ⟨data, List.getElem?_set_self (h.length.symm ▸ hj)⟩
    · obtain ⟨data, hData⟩ := h.full j hj hLeft
      exact ⟨data, (List.getElem?_set_ne hi).trans hData⟩
  filling j hj hLeft := by
    by_cases hi : i = j
    · subst hi
      obtain ⟨data, rfl⟩ := hFilling hLeft
      exact ⟨data, List.getElem?_set_self (h.length.symm ▸ hj)⟩
    · obtain ⟨data, hData⟩ := h.filling j hj hLeft
      exact ⟨data, (List.getElem?_set_ne hi).trans hData⟩
  broken := h.broken
  cancels := h.cancels
  site := h.site

theorem keeps {st : Stage} {reads : Prop} (hOwn : ¬left st.index) (hIndex : st.isLast = false → st.index < n)
    (hReads : reads → left (st.index - 1)) : st.Keeps reads (Line.Flows n left site) where
  write line data h hInner := by
    obtain ⟨written, hPipe⟩ := h.filling st.index (hIndex hInner) hOwn
    refine h.setPipe _ (fun hLeft => absurd hLeft hOwn) fun _ => ⟨written ++ data, ?_⟩
    rw [Line.pipe, List.getD_eq_getElem?_getD, hPipe, Option.getD_some]
    rfl
  read hRead line data rest h hPipe := h.setPipe _ (fun _ => ⟨rest, rfl⟩) fun hLeft => absurd (hReads hRead) hLeft
  other line world scope captured h hSite := { h with site := hSite.trans h.site }

/-- The pipe after a stage that leaves holds what the stage has written, and an end. -/
theorem close (h : line.Flows n left site) (st : Stage) (hOwn : ¬left st.index) (fault : Option Fault) (desk : Desk) :
    (st.close fault desk line).Flows n (fun j => left j ∨ j = st.index) site where
  length := by simp [Stage.close, h.length]
  full j hj hLeft := by
    by_cases hIndex : st.index = j
    · obtain ⟨data, hData⟩ := h.filling j hj (hIndex ▸ hOwn)
      exact ⟨data, by simp [Stage.close, hIndex, hData, Feed.add, Feed.finish, Feed.awaiting, Feed.ofBytes]⟩
    · obtain ⟨data, hData⟩ := h.full j hj (hLeft.resolve_right (Ne.symm hIndex))
      exact ⟨data, by simp [Stage.close, hIndex, hData]⟩
  filling j hj hLeft := by
    obtain ⟨hOther, hIndex⟩ := not_or.mp hLeft
    obtain ⟨data, hData⟩ := h.filling j hj hOther
    exact ⟨data, by simp [Stage.close, Ne.symm hIndex, hData]⟩
  broken i hi := by
    have hBroken : i ∈ if st.index = 0 then line.broken else (st.index - 1) :: line.broken := hi
    split at hBroken
    · exact .inl (h.broken i hBroken)
    · rcases List.mem_cons.mp hBroken with rfl | hOld
      · exact .inr (by omega)
      · exact .inl (h.broken i hOld)
  cancels hCancels := Bool.or_eq_true_iff.mpr (.inr hCancels)
  site := by
    have hAloof : World.Aloof World.site := World.site_serve
    have hWorld : (st.close fault desk line).world = line.world.closeAll desk.handles := World.releaseAll_eq _ _
    rw [hWorld, hAloof.closeAll, h.site]

end Line.Flows

/-- A stage of plain actions in a pipeline with `n` pipes. -/
structure Worker.Plain {S : Type} (n : Nat) (w : Worker S) : Prop where
  builtin : w.stage.isProcess = false
  source : w.stage.source = .pipe → w.stage.index ≠ 0
  host : w.stage.source = .host → w.stage.index = 0
  isLast : w.stage.isLast = true ↔ w.stage.index = n
  pose : ∃ pose, w.work.Holds w.stage pose ∧ pose.IsPlain

namespace Crew

variable {S : Type}

def indices (crew : Crew S) : List Nat := crew.workers.map (·.stage.index)

/-- Stage `j` has been launched and is no longer at work. -/
def Left (crew : Crew S) (j : Nat) : Prop := j < crew.launched ∧ j ∉ crew.indices

def turned (crew : Crew S) (before after : List (Worker S)) (w : Worker S) : Turn S × Line → Crew S
  | (.on work, line) => { crew with line := line, workers := before ++ { w with work := work } :: after }
  | (.ended _, line) => { crew with line := line, workers := before ++ after }

/-- What is known of the crew of a pipeline of plain builtins in an orderly course. -/
structure Flowing (n : Nat) (site : (String → Option Builtin) × Bool) (crew : Crew S) : Prop where
  line : crew.line.Flows n crew.Left site
  workers : ∀ w ∈ crew.workers, w.Plain n
  sorted : crew.indices.Pairwise (· < ·)
  below : ∀ i ∈ crew.indices, i < crew.launched
  inTurn : ∀ j, crew.Left j → ∀ i ∈ crew.indices, j < i
  count : crew.launched + crew.pending.length = n + 1
  pending : ∀ c ∈ crew.pending, ∃ b, site.1 (c.args.headD "") = some b ∧ ∀ p, (b.task p).IsPlain
  memory : site.2 = true
  several : n ≠ 0

/-- What may come next of a stage that stands at `pose`: it begins to wait, or it goes on. -/
inductive Turns (crew : Crew S) (before after : List (Worker S)) (w : Worker S) (pose : Pose) : Crew S → Prop
  | linger {work : Work S} (hHolds : work.Holds w.stage pose) :
    Turns crew before after w pose { crew with workers := before ++ { w with work := work } :: after }
  | move (signal : Signal) (hStop : signal.isStop = true → crew.line.canceled = true)
      (hInput : pose.Reads w.stage → ∃ data, crew.line.pipe (w.stage.index - 1) = .ofBytes data)
      (hOutlasts : pose.isDone = true → ∀ i ∈ crew.indices, w.stage.index ≤ i) :
    Turns crew before after w pose (crew.turned before after w (pose.next w.stage signal crew.line))

/-- What may come next in an orderly course of such a crew. -/
inductive Goes (v : Invoker) (output : Output) (stops : Prop) (crew : Crew S) : Crew S → Prop
  | launch {c : Command} {rest : List Command} {start : Launch} {line : Line} (hPending : crew.pending = c :: rest)
      (hRefusal : crew.refusal = none) (hOrder : ∀ w ∈ crew.workers, w.inOrder = false)
      (hLaunch : v.launch output crew.launched rest.isEmpty c crew.line = (.ok start, line)) :
    Goes v output stops crew
      { crew with
        line := line
        pending := rest
        launched := crew.launched + 1
        workers := crew.workers ++ [start.worker] }
  | refuse {c : Command} {rest : List Command} {fault : Fault} {line : Line} (hPending : crew.pending = c :: rest)
      (hRefusal : crew.refusal = none) (hOrder : ∀ w ∈ crew.workers, w.inOrder = false)
      (hLaunch : v.launch output crew.launched rest.isEmpty c crew.line = (.error fault, line)) :
    Goes v output stops crew { crew with line := { line with canceled := true }, refusal := some fault }
  | stop (hStops : stops) : Goes v output stops crew { crew with line := crew.line.stop }
  | turn {before after : List (Worker S)} {w : Worker S} {crew' : Crew S}
      (hWorkers : crew.workers = before ++ w :: after)
      (hTurns : ∀ {pose : Pose}, w.work.Holds w.stage pose → pose.IsPlain → crew.Turns before after w pose crew') :
    Goes v output stops crew crew'

namespace Flowing

variable {n : Nat} {site : (String → Option Builtin) × Bool} {crew crew' : Crew S} {before after : List (Worker S)}
  {w : Worker S} {pose : Pose}

theorem mem (hWorkers : crew.workers = before ++ w :: after) : w ∈ crew.workers :=
  hWorkers ▸ List.mem_append_right before List.mem_cons_self

theorem index_mem (hMem : w ∈ crew.workers) : w.stage.index ∈ crew.indices := List.mem_map_of_mem hMem

theorem not_left (hMem : w ∈ crew.workers) : ¬crew.Left w.stage.index := fun hLeft => hLeft.2 (index_mem hMem)

theorem unique (h : crew.Flowing n site) {u : Worker S} (hw : w ∈ crew.workers) (hu : u ∈ crew.workers)
    (hIndex : u.stage.index = w.stage.index) : u = w :=
  List.inj_on_of_nodup_map (h.sorted.imp Nat.ne_of_lt) hu hw hIndex

theorem index_le (h : crew.Flowing n site) (hw : w ∈ crew.workers) : w.stage.index ≤ n := by
  have hBelow := h.below _ (index_mem hw)
  have hCount := h.count
  omega

theorem before_lt (h : crew.Flowing n site) (hw : w ∈ crew.workers) (hSource : w.stage.source = .pipe) :
    w.stage.index - 1 < n := by
  have hIndex := (h.workers w hw).source hSource
  have hLe := h.index_le hw
  omega

theorem inner_lt (h : crew.Flowing n site) (hw : w ∈ crew.workers) (hInner : w.stage.isLast = false) :
    w.stage.index < n := by
  refine Nat.lt_of_le_of_ne (h.index_le hw) fun hIndex => ?_
  rw [(h.workers w hw).isLast.mpr hIndex] at hInner
  cases hInner

theorem not_host (h : crew.Flowing n site) (hw : w ∈ crew.workers) (hLast : w.stage.isLast = true) :
    w.stage.source ≠ .host := by
  intro hSource
  exact h.several (((h.workers w hw).isLast.mp hLast).symm.trans ((h.workers w hw).host hSource))

/-- A stage that is about to read finds its pipe at its end only if the stage before it has left. -/
theorem left_of_reads (h : crew.Flowing n site) (hw : w ∈ crew.workers)
    (hInput : pose.Reads w.stage → ∃ data, crew.line.pipe (w.stage.index - 1) = .ofBytes data)
    (hReads : pose.Reads w.stage) : crew.Left (w.stage.index - 1) := by
  obtain ⟨data, hData⟩ := hInput hReads
  exact h.line.left_of_ended (h.before_lt hw hReads.source) (by rw [hData]; rfl)

theorem settles (h : crew.Flowing n site) (hw : w ∈ crew.workers) (hSource : w.stage.source = .pipe) :
    (crew.line.pipe (w.stage.index - 1)).Settles :=
  h.line.settles (h.before_lt hw hSource)

theorem replace (h : crew.Flowing n site) (hIndices : crew'.indices = crew.indices)
    (hLaunched : crew'.launched = crew.launched) (hPending : crew'.pending = crew.pending)
    (hLine : crew'.line.Flows n crew.Left site) (hWorkers : ∀ w ∈ crew'.workers, w.Plain n) :
    crew'.Flowing n site := by
  have hLeft (j : Nat) : crew'.Left j ↔ crew.Left j := by rw [Left, Left, hIndices, hLaunched]
  exact {
    line := hLine.congr hLeft
    workers := hWorkers
    sorted := hIndices ▸ h.sorted
    below := by
      rw [hIndices, hLaunched]
      exact h.below
    inTurn := by
      intro j hj
      rw [hIndices]
      exact h.inTurn j ((hLeft j).mp hj)
    count := by rw [hLaunched, hPending, h.count]
    pending := hPending ▸ h.pending
    memory := h.memory
    several := h.several }

theorem on (h : crew.Flowing n site) (hWorkers : crew.workers = before ++ w :: after) {work : Work S} {line : Line}
    (hLine : line.Flows n crew.Left site) (hHolds : work.Holds w.stage pose) (hPlain : pose.IsPlain) :
    Flowing n site { crew with line := line, workers := before ++ { w with work := work } :: after } := by
  have hWorker := h.workers
  rw [hWorkers] at hWorker
  refine h.replace (by simp [indices, hWorkers]) rfl rfl hLine ?_
  simp only [List.forall_mem_append, List.forall_mem_cons] at hWorker ⊢
  exact ⟨hWorker.1, { hWorker.2.1 with pose := ⟨pose, hHolds, hPlain⟩ }, hWorker.2.2⟩

theorem leave (h : crew.Flowing n site) (hWorkers : crew.workers = before ++ w :: after)
    (hFirst : ∀ i ∈ crew.indices, w.stage.index ≤ i) {line : Line}
    (hLine : line.Flows n (fun j => crew.Left j ∨ j = w.stage.index) site) :
    Flowing n site { crew with line := line, workers := before ++ after } := by
  let crew' : Crew S := { crew with line := line, workers := before ++ after }
  have hSplit : crew.indices = before.map (·.stage.index) ++ w.stage.index :: after.map (·.stage.index) := by
    rw [indices, hWorkers, List.map_append, List.map_cons]
  have hRest : crew'.indices = before.map (·.stage.index) ++ after.map (·.stage.index) := List.map_append
  have hSub : crew'.indices.Sublist crew.indices := by
    rw [hSplit, hRest]
    exact List.Sublist.append_left (List.sublist_cons_self _ _) _
  have hGone : w.stage.index ∉ crew'.indices := by
    have hNodup : crew.indices.Nodup := h.sorted.imp Nat.ne_of_lt
    rw [hSplit, List.nodup_middle] at hNodup
    rw [hRest]
    exact (List.nodup_cons.mp hNodup).1
  have hMem {i : Nat} (hi : i ∈ crew.indices) (hNe : i ≠ w.stage.index) : i ∈ crew'.indices := by
    rw [hSplit, List.mem_append, List.mem_cons] at hi
    rw [hRest, List.mem_append]
    exact hi.imp_right fun hi => hi.resolve_left hNe
  have hw : w ∈ crew.workers := mem hWorkers
  have hLeft (j : Nat) : crew'.Left j ↔ crew.Left j ∨ j = w.stage.index := by
    constructor
    · rintro ⟨hLaunched, hNot⟩
      exact or_iff_not_imp_right.mpr fun hNe => ⟨hLaunched, fun hj => hNot (hMem hj hNe)⟩
    · rintro (hj | rfl)
      · exact ⟨hj.1, fun hIn => hj.2 (hSub.subset hIn)⟩
      · exact ⟨h.below _ (index_mem hw), hGone⟩
  exact {
    line := hLine.congr hLeft
    workers := by
      have hWorker := h.workers
      rw [hWorkers] at hWorker
      simp only [List.forall_mem_append, List.forall_mem_cons] at hWorker ⊢
      exact ⟨hWorker.1, hWorker.2.2⟩
    sorted := h.sorted.sublist hSub
    below := fun i hi => h.below i (hSub.subset hi)
    inTurn := by
      intro j hj i hi
      rcases (hLeft j).mp hj with hj | rfl
      · exact h.inTurn j hj i (hSub.subset hi)
      · exact Nat.lt_of_le_of_ne (hFirst i (hSub.subset hi)) fun hEq => hGone (hEq ▸ hi)
    count := h.count
    pending := h.pending
    memory := h.memory
    several := h.several }

theorem turned (h : crew.Flowing n site) (hWorkers : crew.workers = before ++ w :: after)
    (hHolds : w.work.Holds w.stage pose) (hPlain : pose.IsPlain) (signal : Signal)
    (hInput : pose.Reads w.stage → ∃ data, crew.line.pipe (w.stage.index - 1) = .ofBytes data)
    (hOutlasts : pose.isDone = true → ∀ i ∈ crew.indices, w.stage.index ≤ i) :
    Flowing n site (crew.turned before after w (pose.next w.stage signal crew.line)) := by
  have hw : w ∈ crew.workers := mem hWorkers
  have hWorker := h.workers w hw
  cases hDone : pose.isDone with
  | true =>
    obtain ⟨result, desk, rfl⟩ := pose.eq_of_isDone hDone
    exact h.leave hWorkers (hOutlasts hDone) (h.line.close w.stage (not_left hw) _ desk)
  | false =>
    have hKeeps : w.stage.Keeps (pose.Reads w.stage) (Line.Flows n crew.Left site) :=
      Line.Flows.keeps (not_left hw) (h.inner_lt hw) (h.left_of_reads hw hInput)
    obtain ⟨work, line, pose', hNext, hHolds', hPlain', hLine⟩ :=
      Pose.next_keeps hPlain hWorker.builtin (h.not_host hw) hInput hKeeps h.line hDone signal
    rw [hNext]
    exact h.on hWorkers hLine (hHolds' _) hPlain'

variable {v : Invoker} {output : Output} {stops : Prop}

variable (v output) in
theorem flows_launch (h : crew.Flowing n site) (index : Nat) (isLast : Bool) (c : Command) :
    (v.launch output index isLast c crew.line).2.Flows n crew.Left site := by
  have hAloof : World.Aloof World.site := World.site_serve
  have hSite := hAloof.launch (fun _ _ => rfl) v output index isLast c crew.line
  rw [v.line_launch]
  exact { h.line with site := hSite.trans h.line.site }

theorem launch (h : crew.Flowing n site) {c : Command} {rest : List Command} {start : Launch} {line : Line}
    (hPending : crew.pending = c :: rest)
    (hLaunch : v.launch output crew.launched rest.isEmpty c crew.line = (.ok start, line)) :
    Flowing n site
      { crew with
        line := line
        pending := rest
        launched := crew.launched + 1
        workers := crew.workers ++ [start.worker] } := by
  obtain ⟨hIndex, hIsLast, -, -, -⟩ := v.stage_launch output crew.launched rest.isEmpty c crew.line (by rw [hLaunch])
  have hPlain := h.pending
  rw [hPending] at hPlain
  obtain ⟨⟨b, hBuiltin, hTask⟩, hRest⟩ := List.forall_mem_cons.mp hPlain
  rw [← h.line.site] at hBuiltin
  have hMemory : crew.line.world.inMemory = true := (congrArg Prod.snd h.line.site).trans h.memory
  obtain ⟨⟨p, hStart⟩, hFeed, hProcess, hSource, hHost⟩ := Invoker.launch_held hLaunch hMemory hBuiltin
  have hCount := h.count
  rw [hPending, List.length_cons] at hCount
  let crew' : Crew S :=
    { crew with
      line := line
      pending := rest
      launched := crew.launched + 1
      workers := crew.workers ++ [start.worker] }
  have hIndices : crew'.indices = crew.indices ++ [crew.launched] := by simp [crew', indices, Launch.worker, hIndex]
  have hLeft (j : Nat) : crew'.Left j ↔ crew.Left j := by
    rw [Left, Left, hIndices, List.mem_append, List.mem_singleton, show crew'.launched = crew.launched + 1 from rfl]
    constructor
    · rintro ⟨hj, hNot⟩
      exact ⟨by omega, fun hIn => hNot (.inl hIn)⟩
    · rintro ⟨hj, hNot⟩
      exact ⟨by omega, fun hIn => hIn.elim hNot (by omega)⟩
  have hLine := h.flows_launch v output crew.launched rest.isEmpty c
  rw [hLaunch] at hLine
  exact {
    line := hLine.congr hLeft
    workers := by
      refine List.forall_mem_append.mpr ⟨h.workers, List.forall_mem_singleton.mpr ⟨hProcess, ?_, ?_, ?_, ?_⟩⟩
      · exact fun hPipe => hIndex ▸ hSource hPipe
      · exact fun hHost' => hIndex.trans (hHost hHost')
      · rw [show start.worker.stage = start.stage from rfl, hIsLast, hIndex, List.isEmpty_iff,
          ← List.length_eq_zero_iff]
        omega
      · exact ⟨.before start.task start.desk, .before, hStart ▸ hTask p, hFeed⟩
    sorted := by
      rw [hIndices]
      refine List.pairwise_append.mpr ⟨h.sorted, List.pairwise_singleton _ _, fun i hi j hj => ?_⟩
      exact (List.mem_singleton.mp hj) ▸ h.below i hi
    below := by
      rw [hIndices]
      refine List.forall_mem_append.mpr ⟨fun i hi => ?_, List.forall_mem_singleton.mpr (Nat.lt_succ_self _)⟩
      exact Nat.lt_succ_of_lt (h.below i hi)
    inTurn := by
      intro j hj
      have hOld := (hLeft j).mp hj
      rw [hIndices]
      exact List.forall_mem_append.mpr ⟨h.inTurn j hOld, List.forall_mem_singleton.mpr hOld.1⟩
    count := by
      change crew.launched + 1 + rest.length = n + 1
      omega
    pending := hRest
    memory := h.memory
    several := h.several }

theorem refuse (h : crew.Flowing n site) {isLast : Bool} {c : Command} {fault : Fault} {line : Line}
    (hLaunch : v.launch output crew.launched isLast c crew.line = (.error fault, line)) :
    Flowing n site { crew with line := { line with canceled := true }, refusal := some fault } := by
  have hLine := h.flows_launch v output crew.launched isLast c
  rw [hLaunch] at hLine
  exact h.replace rfl rfl rfl { hLine with cancels := fun _ => rfl } h.workers

theorem stop (h : crew.Flowing n site) : Flowing n site { crew with line := crew.line.stop } :=
  h.replace rfl rfl rfl { h.line with cancels := fun _ => rfl } h.workers

theorem step (h : crew.Flowing n site) (hGoes : crew.Goes v output stops crew') : crew'.Flowing n site := by
  cases hGoes with
  | launch hPending hRefusal hOrder hLaunch => exact h.launch hPending hLaunch
  | refuse hPending hRefusal hOrder hLaunch => exact h.refuse hLaunch
  | stop hStops => exact h.stop
  | @turn before after w _ hWorkers hTurns =>
    obtain ⟨pose, hHolds, hPlain⟩ := (h.workers w (mem hWorkers)).pose
    cases hTurns hHolds hPlain with
    | linger hHolds' => exact h.on hWorkers h.line hHolds' hPlain
    | move signal hStop hInput hOutlasts => exact h.turned hWorkers hHolds hPlain signal hInput hOutlasts

end Flowing

section Orders

variable {v : Invoker} {output : Output} {C : Calls} {mayCall stops : Prop} {n : Nat}
  {site : (String → Option Builtin) × Bool} {crew crew' : Crew C.State} {before after : List (Worker C.State)}
  {w : Worker C.State} {pose : Pose}

theorem Flowing.isDue (h : crew.Flowing n site) (hw : w ∈ crew.workers) (hHolds : w.work.Holds w.stage pose)
    (hPlain : pose.IsPlain) (hAwaits : ¬crew.Awaits w) (hReading : w.work.isReading = true)
    (hSource : w.stage.source = .pipe) :
    (crew.line.pipe (w.stage.index - 1)).ended = true := by
  by_contra hOpen
  rw [Bool.not_eq_true] at hOpen
  obtain ⟨data, hData⟩ := (h.settles hw hSource).of_open hOpen
  refine hAwaits ⟨hReading, hSource, ?_, ?_, ?_⟩
  · rw [hData, hHolds.amount hPlain]
    rfl
  · rw [hData]
    rfl
  · rw [(h.workers w hw).builtin, Bool.false_and]

theorem Flowing.isDone (h : crew.Flowing n site) (hw : w ∈ crew.workers) (hPlain : pose.IsPlain)
    (hInput : pose.Reads w.stage → ∃ data, crew.line.pipe (w.stage.index - 1) = .ofBytes data) {signal : Signal}
    {result : Option Failure} {line : Line}
    (hEnded : pose.next (S := C.State) w.stage signal crew.line = (.ended result, line)) : pose.isDone = true := by
  by_contra hGoes
  rw [Bool.not_eq_true] at hGoes
  obtain ⟨work, line', pose', hNext, -⟩ :=
    Pose.next_keeps (S := C.State) hPlain (h.workers w hw).builtin (h.not_host hw) hInput (w.stage.keeps_true _) trivial
      hGoes signal
  rw [hEnded] at hNext
  cases hNext

theorem Flowing.goes (h : crew.Flowing n site) (hOrders : Orders v output C mayCall stops crew crew') :
    crew.Goes v output stops crew' := by
  obtain ⟨event, hStep, hPrompt, hOutlasts, hStops⟩ := hOrders
  cases hStep with
  | launch hPending hRefusal hOrder hLaunch => exact .launch hPending hRefusal hOrder hLaunch
  | refuse hPending hRefusal hOrder hLaunch => exact .refuse hPending hRefusal hOrder hLaunch
  | stop => exact .stop (hStops rfl)
  | @act before after w work line hWorkers hActs =>
    have hw : w ∈ crew.workers := mem hWorkers
    refine .turn hWorkers fun {pose} hHolds hPlain => ?_
    have hDue := h.isDue hw hHolds hPlain (hPrompt w hw rfl)
    rcases hHolds.acts hPlain (h.workers w hw).builtin (h.settles hw) hDue hActs with
      ⟨work', hSame, hHolds'⟩ | ⟨signal, hStop, hInput, hNext⟩
    · cases hSame
      exact .linger hHolds'
    · have hTurns :
          crew.Turns before after w pose (crew.turned before after w (pose.next w.stage signal crew.line)) := by
        refine .move signal hStop hInput fun hDone => ?_
        obtain ⟨result, desk, rfl⟩ := pose.eq_of_isDone hDone
        cases hNext
      rwa [← hNext] at hTurns
  | @finish before after w result line hWorkers hActs =>
    have hw : w ∈ crew.workers := mem hWorkers
    refine .turn hWorkers fun {pose} hHolds hPlain => ?_
    have hDue := h.isDue hw hHolds hPlain (hPrompt w hw rfl)
    rcases hHolds.acts hPlain (h.workers w hw).builtin (h.settles hw) hDue hActs with
      ⟨work', hSame, -⟩ | ⟨signal, hStop, hInput, hNext⟩
    · cases hSame
    · have hTurns : crew.Turns before after w pose (crew.turned before after w (pose.next w.stage signal crew.line)) :=
        .move signal hStop hInput fun _ => List.forall_mem_map.mpr hOutlasts
      rwa [← hNext] at hTurns

/-- A stage may go on in an orderly course if the pipe that it reads has ended, and leave if it is the first. -/
theorem Flowing.orders (h : crew.Flowing n site) (hWorkers : crew.workers = before ++ w :: after)
    (hHolds : w.work.Holds w.stage pose) (hPlain : pose.IsPlain) (signal : Signal)
    (hStop : signal.isStop = true → crew.line.canceled = true)
    (hInput : pose.Reads w.stage → ∃ data, crew.line.pipe (w.stage.index - 1) = .ofBytes data)
    (hOutlasts : pose.isDone = true → ∀ i ∈ crew.indices, w.stage.index ≤ i) :
    Orders v output C mayCall stops crew (crew.turned before after w (pose.next w.stage signal crew.line)) := by
  have hw : w ∈ crew.workers := mem hWorkers
  have hActs : Acts C mayCall w.stage (.on w.work, crew.line) (pose.next w.stage signal crew.line) :=
    hHolds.goes hPlain hInput hStop
  have hPrompt : ∀ u ∈ crew.workers, u.stage.index = w.stage.index → ¬crew.Awaits u := by
    rintro u hu hIndex ⟨hReading, hSource, hShort, -⟩
    obtain rfl := h.unique hw hu hIndex
    obtain ⟨data, hData⟩ := hInput (hHolds.reads hReading hSource)
    rw [hData, hHolds.amount hPlain, Feed.take?_all_ofBytes] at hShort
    cases hShort
  cases hTurn : pose.next (S := C.State) w.stage signal crew.line with
  | mk turn line =>
    rw [hTurn] at hActs
    cases turn with
    | on work => exact ⟨_, .act hWorkers hActs, hPrompt, trivial, by simp⟩
    | ended result =>
      have hDone : pose.isDone = true := h.isDone hw hPlain hInput hTurn
      exact ⟨_, .finish hWorkers hActs, hPrompt, fun u hu => hOutlasts hDone _ (index_mem hu), by simp⟩

theorem Flowing.next (h : crew.Flowing n site) (hOrders : Orders v output C mayCall stops crew crew') :
    crew'.Flowing n site :=
  h.step (h.goes hOrders)

theorem Flowing.orderly (h : crew.Flowing n site) (hOrderly : Orderly v output C mayCall stops crew crew') :
    crew'.Flowing n site := by
  induction hOrderly with
  | refl => exact h
  | tail _ hLast ih => exact ih.next hLast

end Orders

end Crew

end Pipework
